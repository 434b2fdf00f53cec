import Ces.Lib.Codec
import Ces.Lib.Reassembly

/-!
# Messages between peers

`sendMessage` puts a message in one frame `[u32 total][u16 service_len][service][payload]`, on the channel for its
size or on the one that is up. The read loop of the other side collects what it reads in `rxBuf` and routes the
frames that are complete. `closeChannel` drops the queue and `rxBuf` of a channel, and the next dial makes a new
stream, so what is promised is promised of each stream apart.
-/

namespace Ces

open Ces.Lib FixedCodec

def maxPeerFrame : UInt32 := 262144
def bulkThreshold : UInt32 := 61440

structure PeerMsg where
  service : Bytes
  payload : Bytes
  deriving DecidableEq

namespace PeerMsg

variable (m : PeerMsg)

def size : Nat := 2 + m.service.length + m.payload.length

/-- The length on the wire, cast to 32 bits. -/
def total : UInt32 := UInt32.ofNat m.size

def frame : Bytes := be32.put m.total ++ (be16.put (UInt16.ofNat m.service.length) ++ (m.service ++ m.payload))

/-- The channel a message is queued on, `true` for bulk. `up` says which channels are up. -/
def sendMessage (up : Bool → Bool) : Option Bool :=
  if !(up false || up true) then none
  else if 0xFFFF < m.service.length then none
  else if maxPeerFrame < m.total then none
  else
    let big := decide (bulkThreshold < m.total)
    if up big then some big else if up !big then some !big else none

end PeerMsg

/-- What the read loop makes of a frame of the given length, `f` being what it has read after the length. -/
def peerFrame (total : UInt32) (f : Bytes) : Front PeerMsg :=
  if total < 2 ∨ maxPeerFrame < total then .bad
  else if f.length < total.toNat then .more
  else
    let slen := (be16.get (f.take 2)).toNat
    if total.toNat < 2 + slen then .bad
    else .item ⟨(f.drop 2).take slen, (f.drop (2 + slen)).take (total.toNat - 2 - slen)⟩ (4 + total.toNat)

/-- What the read loop finds at the front of `rxBuf`. -/
def peerFront (rxBuf : Bytes) : Front PeerMsg :=
  match be32.take rxBuf with
  | none => .more
  | some (total, f) => peerFrame total f

theorem peerFront_put (total : UInt32) (f : Bytes) : peerFront (be32.put total ++ f) = peerFrame total f := by
  simp [peerFront]

theorem peerFront_ne_more (b : Bytes) (h : peerFront b ≠ .more) : ∃ total f, b = be32.put total ++ f := by
  cases htake : be32.take b with
  | none => simp [peerFront, htake] at h
  | some r => exact ⟨r.1, r.2, take_eq_some.mp htake⟩

theorem peerFrame_append {total : UInt32} {f : Bytes} (h : peerFrame total f ≠ .more) (c : Bytes) :
    peerFrame total (f ++ c) = peerFrame total f := by
  unfold peerFrame at h ⊢
  by_cases hbad : total < 2 ∨ maxPeerFrame < total
  · simp [hbad]
  have htwo : 2 ≤ total.toNat := by
    have := UInt32.not_lt.mp (not_or.mp hbad).1
    exact UInt32.le_iff_toNat_le.mp this
  have hlong : total.toNat ≤ f.length := by
    by_contra hshort
    simp [hbad, Nat.lt_of_not_le hshort] at h
  have htake : (f ++ c).take 2 = f.take 2 := List.take_append_of_le_length (by omega)
  have hlong' : total.toNat ≤ (f ++ c).length := by
    rw [List.length_append]
    omega
  simp only [hbad, if_false, Nat.not_lt.mpr hlong, Nat.not_lt.mpr hlong', htake]
  by_cases hslen : total.toNat < 2 + (be16.get (f.take 2)).toNat
  · simp [hslen]
  · have hdrop : ∀ k, k ≤ total.toNat → (f ++ c).drop k = f.drop k ++ c := fun k hk =>
      List.drop_append_of_le_length (by omega)
    rw [if_neg hslen, if_neg hslen, hdrop 2 htwo, hdrop _ (by omega), List.take_append_of_le_length,
      List.take_append_of_le_length] <;> (rw [List.length_drop]; omega)

def peerDecoder : Decoder PeerMsg where
  front := peerFront
  size {b m n} h := by
    obtain ⟨total, f, rfl⟩ := peerFront_ne_more b (by simp [h])
    have hput : (be32.put total).length = 4 := be32.put_length total
    rw [peerFront_put] at h
    unfold peerFrame at h
    grind
  stable b h c := by
    obtain ⟨total, f, rfl⟩ := peerFront_ne_more b h
    rw [peerFront_put] at h
    rw [List.append_assoc, peerFront_put, peerFront_put, peerFrame_append h]

namespace PeerMsg

variable {m : PeerMsg}

/-- What a message needs to be queued. -/
def Accepted (up : Bool → Bool) (m : PeerMsg) : Bool :=
  (up false || up true) && decide (m.service.length ≤ 0xFFFF) && decide (m.total ≤ maxPeerFrame)

theorem isSome_sendMessage (up : Bool → Bool) : (m.sendMessage up).isSome = Accepted up m := by
  unfold sendMessage Accepted
  generalize decide (bulkThreshold < m.total) = big
  rcases Nat.lt_or_ge 0xFFFF m.service.length with hlong | hnamed
  · simp [hlong]
  by_cases hbig : maxPeerFrame < m.total
  · simp [hbig]
  · rw [if_neg (Nat.not_lt.mpr hnamed), if_neg hbig]
    cases big <;> cases hctrl : up false <;> cases hbulk : up true <;> simp_all

/-- The frame of a message is read back as the message, whatever follows. -/
theorem peerFront_frame {up : Bool → Bool} (h : Accepted up m = true) (hsize : m.size < 2 ^ 32) (rest : Bytes) :
    peerFront (m.frame ++ rest) = .item m m.frame.length := by
  simp only [Accepted, Bool.and_eq_true, decide_eq_true_eq] at h
  have htotal : m.total.toNat = m.size := UInt32.toNat_ofNat_of_lt' hsize
  have hslen : (UInt16.ofNat m.service.length).toNat = m.service.length :=
    UInt16.toNat_ofNat_of_lt' (Nat.lt_succ_of_le h.1.2)
  have hput : (be16.put (UInt16.ofNat m.service.length)).length = 2 := be16.put_length _
  have htake : ∀ l, (be16.put (UInt16.ofNat m.service.length) ++ l).take 2 = be16.put (UInt16.ofNat m.service.length) :=
    fun l => by rw [← hput, List.take_left]
  have hdrop : ∀ l, (be16.put (UInt16.ofNat m.service.length) ++ l).drop 2 = l := fun l => by
    rw [← hput, List.drop_left]
  have hpayload : m.total.toNat - 2 - m.service.length = m.payload.length := by
    rw [htotal, size]
    omega
  have hframe : m.frame.length = 4 + m.total.toNat := by
    have hlength : (be32.put m.total).length = 4 := be32.put_length _
    simp only [frame, List.length_append, hlength, hput, htotal, size]
    omega
  rw [hframe, frame, List.append_assoc, peerFront_put, peerFrame, if_neg, if_neg]
  · simp only [List.append_assoc, htake, be16.get_put, hslen, ← List.drop_drop, hdrop, List.take_left,
      List.drop_left, hpayload]
    rw [if_neg]
    rw [htotal, size]
    omega
  · simp only [List.length_append, hput, htotal, size]
    omega
  · rintro (hshort | hbig)
    · have hless : m.total.toNat < 2 := UInt32.lt_iff_toNat_lt.mp hshort
      rw [htotal, size] at hless
      omega
    · exact absurd hbig (UInt32.not_lt.mpr h.2)

end PeerMsg

open PeerMsg

/-! ### Streams -/

/-- The sending side of a link: the messages queued so far on the stream of each channel that is up, `true` for
bulk, and those of the streams that are gone. -/
structure PeerStreams where
  current : Bool → Option (List PeerMsg)
  past : List (List PeerMsg)

/-- What happens to the sending side of a link: a call of `sendMessage`, a channel that comes up on a new stream,
one that goes down. -/
inductive PeerSendEvent where
  | send (m : PeerMsg)
  | establishChannel (bulk : Bool)
  | closeChannel (bulk : Bool)

namespace PeerStreams

variable (s : PeerStreams)

def new : PeerStreams := ⟨fun _ => none, []⟩

def up (bulk : Bool) : Bool := (s.current bulk).isSome

def streams : List (List PeerMsg) := (s.current false).toList ++ ((s.current true).toList ++ s.past)

def closeChannel (bulk : Bool) : PeerStreams :=
  ⟨Function.update s.current bulk none, (s.current bulk).toList ++ s.past⟩

def step : PeerSendEvent → PeerStreams
  | .send m =>
    match m.sendMessage s.up with
    | none => s
    | some bulk => { s with current := Function.update s.current bulk ((s.current bulk).map (· ++ [m])) }
  | .establishChannel bulk =>
    { s.closeChannel bulk with current := Function.update s.current bulk (some []) }
  | .closeChannel bulk => s.closeChannel bulk

def run (events : List PeerSendEvent) : PeerStreams := events.foldl step s

/-- The message an event brings, when it is one that is queued. -/
def accepted : PeerSendEvent → List PeerMsg
  | .send m => if Accepted s.up m then [m] else []
  | _ => []

/-- The messages queued by a sequence of events. -/
def acceptedAll (s : PeerStreams) : List PeerSendEvent → List PeerMsg
  | [] => []
  | e :: rest => s.accepted e ++ acceptedAll (s.step e) rest

variable {s}

/-- `sendMessage` chooses a channel that is up. -/
theorem up_of_sendMessage {m : PeerMsg} {bulk : Bool} (h : m.sendMessage s.up = some bulk) :
    ∃ queue, s.current bulk = some queue := by
  refine Option.isSome_iff_exists.mp (?_ : s.up bulk = true)
  unfold PeerMsg.sendMessage at h
  generalize decide (bulkThreshold < m.total) = big at h
  dsimp only at h
  split_ifs at h with _ _ _ hbig hother
  · obtain rfl := Option.some.inj h
    exact hbig
  · obtain rfl := Option.some.inj h
    exact hother

theorem streams_closeChannel (bulk : Bool) : (s.closeChannel bulk).streams.Perm s.streams := by
  cases bulk with
  | false => simp [streams, closeChannel, List.perm_append_comm_assoc]
  | true => simp [streams, closeChannel]

/-- One event adds its message to one stream. -/
theorem flatten_step (e : PeerSendEvent) : (s.step e).streams.flatten.Perm (s.accepted e ++ s.streams.flatten) := by
  cases e with
  | closeChannel bulk => exact (streams_closeChannel bulk).flatten
  | establishChannel bulk =>
    have hclosed := (streams_closeChannel (s := s) bulk).flatten
    refine List.Perm.trans ?_ hclosed
    cases bulk <;> simp [streams, step, closeChannel]
  | send m =>
    simp only [step, accepted, ← isSome_sendMessage]
    cases hsent : m.sendMessage s.up with
    | none => simp
    | some bulk =>
      obtain ⟨queue, hqueue⟩ := up_of_sendMessage hsent
      cases bulk with
      | false => simp [streams, hqueue]
      | true =>
        cases hother : s.current false with
        | none => simp [streams, hqueue, hother]
        | some other =>
          have hmiddle := @List.perm_middle _ m (other ++ queue) s.past.flatten
          simpa [streams, hqueue, hother] using hmiddle

theorem flatten_run (events : List PeerSendEvent) : ∀ {s : PeerStreams},
    (s.run events).streams.flatten.Perm (s.acceptedAll events ++ s.streams.flatten) := by
  induction events with
  | nil => intro s; rfl
  | cons e rest ih =>
    intro s
    refine ih.trans (((flatten_step e).append_left _).trans ?_)
    rw [acceptedAll, List.append_assoc]
    exact List.perm_append_comm_assoc _ _ _

theorem mem_acceptedAll {m : PeerMsg} (events : List PeerSendEvent) : ∀ {s : PeerStreams}, m ∈ s.acceptedAll events →
    .send m ∈ events ∧ ∃ up, Accepted up m = true := by
  induction events with
  | nil => intro s h; simp [acceptedAll] at h
  | cons e rest ih =>
    intro s h
    rcases List.mem_append.mp h with h | h
    · cases e with
      | send m' =>
        simp only [accepted] at h
        split_ifs at h with haccepted
        · obtain rfl := List.mem_singleton.mp h
          exact ⟨List.mem_cons_self, _, haccepted⟩
        · cases h
      | establishChannel bulk => cases h
      | closeChannel bulk => cases h
    · obtain ⟨hmem, haccepted⟩ := ih h
      exact ⟨List.mem_cons_of_mem e hmem, haccepted⟩

end PeerStreams

open PeerStreams

/-- Whatever is sent and however often the channels go down and come up: every message that fits a frame and finds a
channel up is queued on exactly one stream. On each stream, however its bytes are cut into reads and wherever the
reads have got to, the messages routed so far are the first of those queued there, the channel is open, and the
bytes still to come yield the others. -/
theorem peer_messages_arrive (events : List PeerSendEvent) (hsize : ∀ m, .send m ∈ events → m.size < 2 ^ 32) :
    (new.run events).streams.flatten.Perm (new.acceptedAll events) ∧
    ∀ stream ∈ (new.run events).streams, ∀ reads unread, reads.flatten ++ unread = (stream.map frame).flatten →
      ∃ routed rxBuf later, peerDecoder.feed (some []) reads = (routed, some rxBuf) ∧
        routed ++ later = stream ∧ peerDecoder.drain (rxBuf ++ unread) = (later, some []) := by
  have hqueued : (new.run events).streams.flatten.Perm (new.acceptedAll events) := by
    simpa [new, streams] using flatten_run events (s := new)
  refine ⟨hqueued, fun stream hstream reads unread hcut => Decoder.feed_encoded rfl (fun m hm rest => ?_) hcut⟩
  have hmem := hqueued.mem_iff.mp (List.mem_flatten_of_mem hstream hm)
  obtain ⟨hsent, up, haccepted⟩ := mem_acceptedAll events hmem
  exact peerFront_frame haccepted (hsize m hsent) rest

/-- The control channel goes down and comes up again; the frame of the message sent then is cut in its second field. -/
theorem peer_messages_arrive_cut :
    ∃ routed rxBuf later, peerDecoder.feed (some []) [[0, 0, 0, 4, 0]] = (routed, some rxBuf) ∧
      routed ++ later = [⟨[112], [7]⟩] ∧ peerDecoder.drain (rxBuf ++ [1, 112, 7]) = (later, some []) :=
  (peer_messages_arrive [.establishChannel false, .send ⟨[112], [5, 6]⟩, .closeChannel false, .establishChannel false,
    .send ⟨[112], [7]⟩] (by simp [size])).2 [⟨[112], [7]⟩] (by decide) _ _ (by decide)

end Ces
