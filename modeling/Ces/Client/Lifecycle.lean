import Ces.Client.Settlement
import Mathlib.Algebra.BigOperators.Group.List.Basic
import Mathlib.Algebra.Order.Group.Multiset
import Mathlib.Tactic.Abel

/-!
# The life of a settlement operation

Every operation whose handler has run is in one place: queued, carried by a busy channel, or completed. `Accounted`
says so with the ids of the operations, and that `pendingCount_` counts the first two. All steps keep it, so a
callback fires once, and by `close` at the latest. A handler that is still posted when `close` returns has fired
nothing: `Awaits` adds those.

A deadline is looked at only in a busy channel, and a busy channel has always just been sent its operation, so its
retry count is zero: `sweep` completes exactly the operations of `GivesUp`. An operation that waits in the queue of
a peer that does not answer handshakes passes its deadline there.
-/

namespace Ces

open Ces.Lib

/-- The id of the operation an event asks for. -/
def ClientEvent.id? : ClientEvent → Option Nat
  | openTransfer _ _ id _ _ => some id
  | gossip _ _ id _ _ _ _ _ => some id
  | _ => none

namespace SettlementChannel

variable (ch : SettlementChannel)

/-- What a channel carries: the id of its operation, and one less to account for in `pendingCount_`. -/
def carried : Multiset Nat × Int := (ch.currentOp.toList.map QueuedOp.id, if ch.state = .busy then -1 else 0)

/-- A channel has an operation exactly while it is busy, and then it has not retried. -/
structure Sound : Prop where
  busy : ch.currentOp.isSome ↔ ch.state = .busy
  fresh : ch.state = .busy → ch.retries = 0

variable {ch}

theorem Sound.none (h : ch.Sound) (hstate : ch.state ≠ .busy) : ch.currentOp = none := by
  rw [← Option.not_isSome_iff_eq_none, h.busy]
  exact hstate

theorem sound_of_none (hop : ch.currentOp = none) (hstate : ch.state ≠ .busy) : ch.Sound :=
  ⟨by simp [hop, hstate], fun hbusy => absurd hbusy hstate⟩

theorem carried_of_none (hop : ch.currentOp = none) (hstate : ch.state ≠ .busy) : ch.carried = 0 := by
  simp [carried, hop, hstate]

theorem carried_busy {op : QueuedOp} (hop : ch.currentOp = some op) (hstate : ch.state = .busy) :
    ch.carried = ({op.id}, -1) := by
  simp [carried, hop, hstate]

end SettlementChannel

open SettlementChannel

namespace CesClientAsync

variable {w : SettlementWire} {c : CesClientAsync} {now : Nat} {data : Bytes}

/-- The ids outside the channels, and what of `pendingCount_` the queue does not account for. -/
def loose (c : CesClientAsync) : Multiset Nat × Int :=
  ((c.queue.map QueuedOp.id : Multiset Nat) + (c.done.map Completion.op : Multiset Nat),
    c.pendingCount - c.queue.length)

/-- The client holds and has completed exactly the operations `ids`. -/
structure Accounted (c : CesClientAsync) (ids : Multiset Nat) : Prop where
  sound : ∀ ch ∈ c.channels, ch.Sound
  balance : c.loose + (c.channels.map carried).sum = (ids, 0)
  closed : c.closed = true → c.queue = [] ∧ ∀ ch ∈ c.channels, ch.currentOp = none

/-! ### Going over the channels -/

section channels

variable {M : Type} [AddCommMonoid M] {f : CesClientAsync → SettlementChannel → SettlementChannel × CesClientAsync}

/-- What `f` keeps of the client and one channel together, going over the channels keeps of all of them. -/
theorem eachChannel_sum {μ : CesClientAsync → M} {ν : SettlementChannel → M}
    (hf : ∀ c ch, ch.Sound → (f c ch).1.Sound ∧ μ (f c ch).2 + ν (f c ch).1 = μ c + ν ch)
    (channels : List SettlementChannel) (hsound : ∀ ch ∈ channels, ch.Sound) :
    ∀ c, (∀ ch ∈ (eachChannel f c channels).1, ch.Sound) ∧
      μ (eachChannel f c channels).2 + ((eachChannel f c channels).1.map ν).sum = μ c + (channels.map ν).sum := by
  induction channels with
  | nil => intro c; exact ⟨hsound, rfl⟩
  | cons ch rest ih =>
    intro c
    obtain ⟨hch, hsum⟩ := hf c ch (hsound ch (by simp))
    obtain ⟨hrest, hmore⟩ := ih (fun ch' hch' => hsound ch' (by simp [hch'])) (f c ch).2
    constructor
    · simp only [eachChannel, List.mem_cons, forall_eq_or_imp]
      exact ⟨hch, hrest⟩
    · simp only [eachChannel, List.map_cons, List.sum_cons]
      rw [add_left_comm, hmore, add_left_comm, ← add_assoc, hsum, add_assoc]

/-- What `f` leaves alone, going over the channels leaves alone. -/
theorem eachChannel_fixes {α : Type} {π : CesClientAsync → α} (hf : ∀ c ch, π (f c ch).2 = π c)
    (channels : List SettlementChannel) : ∀ c, π (eachChannel f c channels).2 = π c := by
  induction channels with
  | nil => intro c; rfl
  | cons ch rest ih => intro c; exact (ih (f c ch).2).trans (hf c ch)

theorem eachChannel_mem (channels : List SettlementChannel) :
    ∀ c, ∀ ch ∈ (eachChannel f c channels).1, ∃ c' ch', ch = (f c' ch').1 := by
  induction channels with
  | nil => intro c ch hch; simp [eachChannel] at hch
  | cons x rest ih =>
    intro c ch hch
    rcases List.mem_cons.mp hch with rfl | hch
    · exact ⟨c, x, rfl⟩
    · exact ih _ ch hch

/-- `changeFirst` changes the channel `find?` finds. -/
theorem changeFirst_sum {p : SettlementChannel → Bool} {g : SettlementChannel → SettlementChannel}
    (ν : SettlementChannel → M) {ch : SettlementChannel} (channels : List SettlementChannel)
    (hfind : channels.find? p = some ch) :
    ∃ channels', changeFirst p g channels = some channels' ∧ (∀ x ∈ channels', x ∈ channels ∨ x = g ch) ∧
      (channels'.map ν).sum + ν ch = (channels.map ν).sum + ν (g ch) := by
  induction channels with
  | nil => simp at hfind
  | cons x rest ih =>
    by_cases hp : p x = true
    · obtain rfl : x = ch := by simpa [hp] using hfind
      refine ⟨g x :: rest, by simp [changeFirst, hp], by simp; tauto, ?_⟩
      simp only [List.map_cons, List.sum_cons]
      rw [add_right_comm, add_right_comm (ν x), add_comm (ν x)]
    · obtain ⟨rest', heq, hmem, hsum⟩ := ih (by simpa [hp] using hfind)
      refine ⟨x :: rest', by simp [changeFirst, hp, heq], ?_, ?_⟩
      · intro y hy
        rcases List.mem_cons.mp hy with rfl | hy
        · simp
        · rcases hmem y hy with hy | hy
          · simp [hy]
          · exact .inr hy
      · simp only [List.map_cons, List.sum_cons]
        rw [add_assoc, hsum, ← add_assoc]

theorem changeFirst_none {p : SettlementChannel → Bool} {g : SettlementChannel → SettlementChannel}
    (channels : List SettlementChannel) (hfind : channels.find? p = none) : changeFirst p g channels = none := by
  induction channels with
  | nil => rfl
  | cons x rest ih =>
    obtain ⟨hx, hrest⟩ : p x = false ∧ rest.find? p = none := by simpa using hfind
    simp [changeFirst, hx, ih hrest]

end channels

/-! ### Steps -/

/-- A step of a channel that carries nothing before and after. -/
theorem quiet_step {c c' : CesClientAsync} {ch ch' : SettlementChannel} (h : ch.Sound) (hbefore : ch.state ≠ .busy)
    (hop : ch'.currentOp = ch.currentOp) (hafter : ch'.state ≠ .busy) (hloose : c'.loose = c.loose) :
    ch'.Sound ∧ c'.loose + ch'.carried = c.loose + ch.carried := by
  have hnone := h.none hbefore
  refine ⟨sound_of_none (hop.trans hnone) hafter, ?_⟩
  rw [carried_of_none hnone hbefore, carried_of_none (hop.trans hnone) hafter, hloose]

theorem dispatchChannel_conserves (c : CesClientAsync) (ch : SettlementChannel) (h : ch.Sound) :
    (dispatchChannel w now c ch).1.Sound ∧
      (dispatchChannel w now c ch).2.loose + (dispatchChannel w now c ch).1.carried = c.loose + ch.carried := by
  unfold dispatchChannel
  split
  next hqueue hidle =>
    exact quiet_step h (by simp [hidle]) rfl (by simp [handshake]) rfl
  next op rest hqueue hready =>
    have hbefore : ch.carried = 0 := carried_of_none (h.none (by simp [hready])) (by simp [hready])
    refine ⟨⟨by simp [sendOp], by simp [sendOp]⟩, ?_⟩
    rw [hbefore, carried_busy rfl rfl]
    simp only [loose, sendOp, hqueue, add_zero, Prod.mk_add_mk, List.map_cons, List.length_cons, Prod.mk.injEq]
    constructor
    · rw [← Multiset.cons_coe, ← Multiset.singleton_add]
      abel
    · push_cast
      omega
  next => exact ⟨h, rfl⟩

theorem loose_fire (op : QueuedOp) (rc : UInt8) (paid : UInt64) :
    (c.fireOpCallback op rc paid).loose = c.loose + ({op.id}, 0) := by
  simp only [loose, fireOpCallback, List.map_cons, Prod.mk_add_mk, add_zero, Prod.mk.injEq, and_true]
  rw [← Multiset.cons_coe, ← Multiset.singleton_add]
  abel

theorem sweepChannel_conserves (c : CesClientAsync) (ch : SettlementChannel) (h : ch.Sound) :
    (sweepChannel w now c ch).1.Sound ∧
      (sweepChannel w now c ch).2.loose + (sweepChannel w now c ch).1.carried = c.loose + ch.carried := by
  unfold sweepChannel
  split
  next hstate =>
    split_ifs
    · exact ⟨h, rfl⟩
    · exact quiet_step h (by simp [hstate]) rfl (by simp) rfl
    · exact quiet_step h (by simp [hstate]) rfl (by simp [hstate]) rfl
  next op hstate hop =>
    have hgiven : ∀ retries, (c.giveUp ch op retries).1.Sound ∧
        (c.giveUp ch op retries).2.loose + (c.giveUp ch op retries).1.carried = c.loose + ch.carried := by
      intro retries
      refine ⟨sound_of_none rfl (by simp [giveUp]), ?_⟩
      rw [carried_of_none rfl (by simp [giveUp]), carried_busy hop hstate, giveUp, loose_fire]
      simp only [loose, Prod.mk_add_mk, add_zero, Prod.mk.injEq, true_and]
      omega
    generalize (if op.kind = .gossip then gossipRetryMs else retryMs) = wait
    split_ifs
    · exact hgiven _
    · exact ⟨h, rfl⟩
    · exact hgiven _
    · refine ⟨sound_of_none rfl (by simp [handshake]), ?_⟩
      rw [carried_of_none rfl (by simp [handshake]), carried_busy hop hstate]
      simp only [loose, handshake, sendGetInfo, List.map_cons, List.length_cons, Prod.mk_add_mk, add_zero,
        Prod.mk.injEq]
      constructor
      · rw [← Multiset.cons_coe, ← Multiset.singleton_add]
        abel
      · push_cast
        omega
  next => exact ⟨h, rfl⟩

theorem failChannel_conserves {rc : UInt8} (c : CesClientAsync) (ch : SettlementChannel) (h : ch.Sound) :
    (failChannel rc c ch).1.Sound ∧
      (failChannel rc c ch).2.loose.1 + (failChannel rc c ch).1.carried.1 = c.loose.1 + ch.carried.1 := by
  refine ⟨sound_of_none rfl (by simp [failChannel]), ?_⟩
  rw [carried_of_none rfl (by simp [failChannel])]
  simp only [failChannel]
  split
  next op hstate hop =>
    rw [loose_fire, carried_busy hop hstate]
    simp
  next hother =>
    have hidle : ch.state ≠ .busy := by
      intro hbusy
      obtain ⟨op, hop⟩ := Option.isSome_iff_exists.mp (h.busy.mpr hbusy)
      exact hother op hbusy hop
    rw [carried_of_none (h.none hidle) hidle]

theorem Accounted.overChannels {ids : Multiset Nat}
    {f : CesClientAsync → SettlementChannel → SettlementChannel × CesClientAsync} (h : c.Accounted ids)
    (hopen : c.closed = false) (hclosed : ∀ c ch, (f c ch).2.closed = c.closed)
    (hf : ∀ c ch, ch.Sound → (f c ch).1.Sound ∧ (f c ch).2.loose + (f c ch).1.carried = c.loose + ch.carried) :
    (c.overChannels f).Accounted ids ∧ (c.overChannels f).closed = false := by
  obtain ⟨hsound, hsum⟩ := eachChannel_sum hf c.channels h.sound c
  have hstill : (c.overChannels f).closed = false := (eachChannel_fixes hclosed c.channels c).trans hopen
  refine ⟨⟨hsound, hsum.trans h.balance, ?_⟩, hstill⟩
  intro hclosed
  simp [hstill] at hclosed

theorem dispatchChannel_closed (c : CesClientAsync) (ch : SettlementChannel) :
    (dispatchChannel w now c ch).2.closed = c.closed := by
  unfold dispatchChannel
  split <;> rfl

theorem sweepChannel_closed (c : CesClientAsync) (ch : SettlementChannel) :
    (sweepChannel w now c ch).2.closed = c.closed := by
  unfold sweepChannel
  split
  next => split_ifs <;> rfl
  next op _ _ =>
    generalize (if op.kind = .gossip then gossipRetryMs else retryMs) = wait
    split_ifs <;> rfl
  next => rfl

theorem Accounted.dispatch {ids : Multiset Nat} (h : c.Accounted ids) : (c.dispatch w now).Accounted ids := by
  unfold CesClientAsync.dispatch
  split_ifs with hidle
  · exact h
  · have hopen : c.closed = false := by simp at hidle; exact hidle.1
    exact (h.overChannels hopen dispatchChannel_closed dispatchChannel_conserves).1

theorem Accounted.sweep {ids : Multiset Nat} (h : c.Accounted ids) : (c.sweep w now).Accounted ids := by
  unfold CesClientAsync.sweep
  split_ifs with hclosed
  · exact h
  · exact (h.overChannels (by simpa using hclosed) sweepChannel_closed sweepChannel_conserves).1.dispatch

theorem Accounted.fire {ids : Multiset Nat} (h : c.Accounted ids) (op : QueuedOp) (rc : UInt8) (paid : UInt64) :
    (c.fireOpCallback op rc paid).Accounted ({op.id} + ids) := by
  refine ⟨h.sound, ?_, h.closed⟩
  have hbalance := h.balance
  rw [loose_fire, add_right_comm]
  simp only [fireOpCallback, hbalance, Prod.mk_add_mk, add_zero, Prod.mk.injEq, and_true]
  exact add_comm _ _

theorem Accounted.submit {ids : Multiset Nat} (h : c.Accounted ids) (full : Bool) (op : QueuedOp) :
    (c.submit w now full op).Accounted ({op.id} + ids) := by
  unfold CesClientAsync.submit
  split_ifs with hclosed
  · exact h.fire op _ _
  · exact h.fire op _ _
  · refine Accounted.dispatch ⟨h.sound, ?_, fun hclosed' => absurd hclosed' hclosed⟩
    have hloose : ({ c with queue := c.queue ++ [op], pendingCount := c.pendingCount + 1 } : CesClientAsync).loose =
        ({op.id}, 0) + c.loose := by
      simp only [loose, List.map_append, List.map_cons, List.map_nil, List.length_append, List.length_singleton,
        Prod.mk_add_mk, Prod.mk.injEq]
      constructor
      · rw [← Multiset.coe_add, Multiset.coe_singleton]
        abel
      · push_cast
        omega
    have hbalance := h.balance
    rw [hloose, add_assoc]
    simp only [hbalance, Prod.mk_add_mk, add_zero]

theorem fireAll (rc : UInt8) (ops : List QueuedOp) : ∀ c : CesClientAsync,
    let c' := ops.foldl (fun c op => c.fireOpCallback op rc 0) c
    c'.channels = c.channels ∧ c'.queue = c.queue ∧ c'.closed = c.closed ∧
      (c'.done.map Completion.op : Multiset Nat) = (ops.map QueuedOp.id : Multiset Nat) + c.done.map Completion.op := by
  induction ops with
  | nil => intro c; simp
  | cons op rest ih =>
    intro c
    obtain ⟨hchannels, hqueue, hclosed, hdone⟩ := ih (c.fireOpCallback op rc 0)
    refine ⟨hchannels, hqueue, hclosed, hdone.trans ?_⟩
    simp only [fireOpCallback, List.map_cons]
    rw [← Multiset.cons_coe, ← Multiset.cons_coe, ← Multiset.singleton_add, ← Multiset.singleton_add op.id]
    abel

/-- `failAll` completes what is queued or carried. -/
theorem failAll_accounted {ids : Multiset Nat} {rc : UInt8} (hsound : ∀ ch ∈ c.channels, ch.Sound)
    (hbalance : c.loose + (c.channels.map carried).sum = (ids, 0)) :
    (c.failAll rc).Accounted ids ∧ (c.failAll rc).queue = [] ∧ (c.failAll rc).closed = c.closed ∧
      ∀ ch ∈ (c.failAll rc).channels, ch.currentOp = none := by
  obtain ⟨-, hsum⟩ := eachChannel_sum (μ := fun c => c.loose.1) (ν := fun ch => ch.carried.1)
    (@failChannel_conserves rc) c.channels hsound c
  have hclosed : (c.overChannels (failChannel rc)).closed = c.closed :=
    eachChannel_fixes (π := CesClientAsync.closed) (by intro c ch; simp only [failChannel]; split <;> rfl) c.channels c
  have hidle : ∀ ch ∈ (c.overChannels (failChannel rc)).channels, ch.currentOp = none ∧ ch.state ≠ .busy := by
    intro ch hch
    obtain ⟨c', ch', rfl⟩ := eachChannel_mem c.channels c ch hch
    exact ⟨rfl, by simp [failChannel]⟩
  have hempty : ((c.overChannels (failChannel rc)).channels.map carried).sum = 0 := by
    apply List.sum_eq_zero
    intro x hx
    obtain ⟨ch, hch, rfl⟩ := List.mem_map.mp hx
    exact carried_of_none (hidle ch hch).1 (hidle ch hch).2
  have hids : (c.overChannels (failChannel rc)).loose.1 = ids := by
    have hfst : ∀ l : List SettlementChannel, (l.map carried).sum.1 = (l.map fun ch => ch.carried.1).sum := by
      intro l
      rw [← AddMonoidHom.coe_fst, map_list_sum, List.map_map]
      rfl
    have hheld := congrArg Prod.fst hbalance
    rw [Prod.fst_add, hfst, ← hsum, ← hfst] at hheld
    change (c.overChannels (failChannel rc)).loose.1 +
      ((c.overChannels (failChannel rc)).channels.map carried).sum.1 = ids
      at hheld
    rw [hempty] at hheld
    simpa using hheld
  unfold CesClientAsync.failAll
  dsimp only
  generalize c.overChannels (failChannel rc) = failed at *
  obtain ⟨hchannels, hqueue, hclosed', hdone⟩ := fireAll rc failed.queue { failed with queue := [] }
  refine ⟨⟨?_, ?_, ?_⟩, hqueue, hclosed'.trans hclosed, ?_⟩
  · intro ch hch
    rw [hchannels] at hch
    exact sound_of_none (hidle ch hch).1 (hidle ch hch).2
  · simp only [loose, hchannels, hqueue, hdone, hempty]
    simp only [loose] at hids
    simp [hids]
  · intro _
    refine ⟨hqueue, fun ch hch => ?_⟩
    rw [hchannels] at hch
    exact (hidle ch hch).1
  · intro ch hch
    rw [hchannels] at hch
    exact (hidle ch hch).1

theorem Accounted.close {ids : Multiset Nat} (h : c.Accounted ids) : c.close.Accounted ids ∧ c.close.closed = true := by
  unfold CesClientAsync.close
  split_ifs with hclosed
  · exact ⟨h, hclosed⟩
  · obtain ⟨hall, -, hclosed', -⟩ := @failAll_accounted { c with closed := true } ids cesErrorInternal h.sound h.balance
    exact ⟨hall, hclosed'⟩

/-- One channel changes, and the rest of the client takes or gives what the channel gives or takes. -/
theorem Accounted.exchange {c' : CesClientAsync} {ids : Multiset Nat} {p : SettlementChannel → Bool}
    {g : SettlementChannel → SettlementChannel} {ch : SettlementChannel} (h : c.Accounted ids)
    (hfind : c.channels.find? p = some ch) (hchange : changeFirst p g c.channels = some c'.channels)
    (hopen : c'.closed = false) (hsound : (g ch).Sound) (hloose : c'.loose + (g ch).carried = c.loose + ch.carried) :
    c'.Accounted ids := by
  obtain ⟨channels', heq, hmem, hsum⟩ := changeFirst_sum (g := g) carried c.channels hfind
  obtain rfl : c'.channels = channels' := Option.some.inj (hchange.symm.trans heq)
  refine ⟨?_, ?_, fun hclosed => by simp [hopen] at hclosed⟩
  · intro x hx
    rcases hmem x hx with hx | rfl
    · exact h.sound x hx
    · exact hsound
  · rw [← h.balance]
    apply add_right_cancel (b := ch.carried)
    rw [add_assoc, hsum, add_left_comm, add_comm, hloose, add_right_comm]

/-- An INFO makes a channel ready that carries nothing. -/
theorem Accounted.handleInfo {ids : Multiset Nat} (h : c.Accounted ids) (hopen : c.closed = false) :
    (c.handleInfo w now data).Accounted ids := by
  unfold CesClientAsync.handleInfo
  split_ifs
  · exact h
  dsimp only
  cases hfind : c.channels.find? (awaitsInfo data) with
  | none =>
    rw [changeFirst_none c.channels hfind]
    exact h
  | some ch =>
    have hawaits := List.find?_some hfind
    have hhandshaking : ch.state = .handshaking := by
      simp only [awaitsInfo, Bool.and_eq_true, decide_eq_true_eq] at hawaits
      exact hawaits.1
    have hsound := h.sound ch (List.mem_of_find?_eq_some hfind)
    obtain ⟨channels', heq, -, -⟩ := changeFirst_sum
      (g := fun ch => { ch with ticket := gpassword data, serverKey := infoKey data, state := .ready })
        carried c.channels
      hfind
    rw [heq]
    have hstep := @quiet_step c { c with channels := channels' } ch
      { ch with ticket := gpassword data, serverKey := infoKey data, state := .ready } hsound
        (by simp [hhandshaking]) rfl
      (by simp) rfl
    exact Accounted.dispatch (h.exchange hfind heq hopen hstep.1 hstep.2)

/-- A result frees a channel and completes its operation. -/
theorem Accounted.handleMessage {ids : Multiset Nat} (h : c.Accounted ids) (hopen : c.closed = false) :
    (c.handleMessage w now data).Accounted ids := by
  unfold CesClientAsync.handleMessage
  split_ifs
  · exact h
  cases hfound : (c.channels.find? (awaitsResult data)).bind (resultFor w data) with
  | none => exact h
  | some found =>
    obtain ⟨op, res⟩ := found
    obtain ⟨ch, hfind, hresult⟩ := Option.bind_eq_some_iff.mp hfound
    have hbusy : ch.state = .busy := by
      have hawaits := List.find?_some hfind
      simp only [awaitsResult, Bool.and_eq_true, decide_eq_true_eq] at hawaits
      exact hawaits.1
    have hop : ch.currentOp = some op := by
      unfold resultFor at hresult
      obtain ⟨op', hop', hres⟩ := Option.bind_eq_some_iff.mp hresult
      obtain ⟨res', -, heq⟩ := Option.map_eq_some_iff.mp hres
      rw [hop', (Prod.mk.inj heq).1]
    obtain ⟨channels', heq, -, -⟩ := changeFirst_sum
      (g := fun ch => { ch with ticket := gpassword data, state := .ready, currentOp := none }) carried c.channels hfind
    dsimp only
    rw [heq]
    refine Accounted.dispatch (h.exchange hfind heq hopen (sound_of_none rfl (by simp)) ?_)
    rw [carried_of_none rfl (by simp), carried_busy hop hbusy, loose_fire]
    simp only [loose, Prod.mk_add_mk, add_zero, Prod.mk.injEq, true_and]
    omega

theorem Accounted.act {ids : Multiset Nat} (h : c.Accounted ids) (e : ClientEvent) :
    (e.act w c).Accounted ((e.id?.toList : Multiset Nat) + ids) := by
  cases e with
  | openTransfer now time id destKey amount => exact h.submit _ _
  | gossip now time id authorId msgId dest budget msg => exact h.submit _ _
  | sweep now => simpa [ClientEvent.id?, ClientEvent.act] using h.sweep
  | close => simpa [ClientEvent.id?, ClientEvent.act] using h.close.1
  | datagram now data =>
    simp only [ClientEvent.act, ClientEvent.id?, Option.toList_none, Multiset.coe_nil, zero_add, onReceive]
    split_ifs with hclosed
    · exact h
    have hopen : c.closed = false := by simpa using hclosed
    cases data.head? with
    | none => exact h
    | some code =>
      dsimp only
      split_ifs
      · exact h.handleInfo hopen
      · exact h.handleMessage hopen
      · exact h

theorem coe_filterMap_cons {α : Type} (f : α → Option Nat) (x : α) (rest : List α) :
    ((x :: rest).filterMap f : Multiset Nat) = (rest.filterMap f : Multiset Nat) + ((f x).toList : Multiset Nat) := by
  cases hid : f x with
  | none => simp [hid]
  | some id =>
    simp only [List.filterMap_cons, hid, Option.toList_some]
    rw [← Multiset.cons_coe, ← Multiset.singleton_add, Multiset.coe_singleton, add_comm]

theorem Accounted.runAll (events : List ClientEvent) : ∀ {c : CesClientAsync} {ids : Multiset Nat}, c.Accounted ids →
    (c.runAll w events).Accounted ((events.filterMap ClientEvent.id? : Multiset Nat) + ids) := by
  induction events with
  | nil => intro c ids h; simpa [CesClientAsync.runAll] using h
  | cons e rest ih =>
    intro c ids h
    have hrest := ih (h.act (w := w) e)
    rw [coe_filterMap_cons, add_assoc]
    exact hrest

theorem accounted_create (ownKey peerServerKey : Hash) (numChannels maxRetries : Nat) :
    (create ownKey peerServerKey numChannels maxRetries).Accounted 0 := by
  have hfresh : fresh.carried = 0 := carried_of_none rfl (by simp [fresh])
  refine ⟨?_, ?_, by simp [create]⟩
  · intro ch hch
    rw [(List.mem_replicate.mp hch).2]
    exact sound_of_none rfl (by simp [fresh])
  · simp [create, loose, hfresh]

/-! ### What the account says -/

variable {ids : Multiset Nat}

/-- The ids of the operations in the channels. -/
def carriedIds (c : CesClientAsync) : List Nat := (c.channels.filterMap SettlementChannel.currentOp).map QueuedOp.id

theorem sum_carried {channels : List SettlementChannel} :
    (channels.map carried).sum = (Multiset.ofList ((channels.filterMap SettlementChannel.currentOp).map QueuedOp.id),
      -(channels.countP (·.state = .busy) : Int)) := by
  induction channels with
  | nil => rfl
  | cons ch rest ih =>
    rw [List.map_cons, List.sum_cons, ih, List.countP_cons, List.filterMap_cons, carried, Prod.mk_add_mk, Prod.mk.injEq]
    constructor
    · cases ch.currentOp with
      | none => simp
      | some op => simp
    · by_cases hbusy : ch.state = .busy
      · simp only [hbusy, if_true, decide_true]
        push_cast
        omega
      · simp [hbusy]

theorem Accounted.places (h : c.Accounted ids) :
    (c.queue.map QueuedOp.id ++ c.carriedIds ++ c.done.map Completion.op : Multiset Nat) = ids := by
  have hbalance := congrArg Prod.fst h.balance
  rw [sum_carried] at hbalance
  simp only [loose, Prod.fst_add] at hbalance
  rw [← hbalance, ← Multiset.coe_add, ← Multiset.coe_add, carriedIds]
  abel

theorem Accounted.nodup (h : c.Accounted ids) (hids : ids.Nodup) :
    (c.queue.map QueuedOp.id ++ c.carriedIds ++ c.done.map Completion.op).Nodup := by
  rw [← Multiset.coe_nodup, h.places]
  exact hids

theorem mem_carriedIds {ch : SettlementChannel} (hch : ch ∈ c.channels) {op : QueuedOp} (hop : ch.currentOp = some op) :
    op.id ∈ c.carriedIds :=
  List.mem_map_of_mem (List.mem_filterMap.mpr ⟨ch, hch, hop⟩)

theorem Accounted.pending (h : c.Accounted ids) :
    c.pendingCount = c.queue.length + c.channels.countP (·.state = .busy) := by
  have hbalance := congrArg Prod.snd h.balance
  rw [sum_carried] at hbalance
  simp only [loose, Prod.snd_add] at hbalance
  omega

end CesClientAsync

open CesClientAsync

/-! ### With what is posted -/

def PostedEvent.id? : PostedEvent → Option Nat
  | call x => some x.id
  | _ => none

namespace ClientCall

theorem id?_handler (now : Nat) (time : UInt64) (x : ClientCall) : (x.handler now time).id? = some x.id := by
  cases x <;> rfl

/-- A handler that runs on a closed client only fires its callback. -/
theorem closed_handler {w : SettlementWire} {c : CesClientAsync} (now : Nat) (time : UInt64) (x : ClientCall)
    (hclosed : c.closed = true) : ((x.handler now time).act w c).closed = true := by
  cases x <;> simp [handler, ClientEvent.act, CesClientAsync.openTransfer, CesClientAsync.gossip, submit, hclosed,
    fireOpCallback]

end ClientCall

namespace CesClientAsync

variable {w : SettlementWire} {c : CesClientAsync} {ids : Multiset Nat}

/-- A closed client has completed all it was given. -/
theorem Accounted.done_of_closed (h : c.Accounted ids) (hclosed : c.closed = true) :
    (c.done.map Completion.op : Multiset Nat) = ids := by
  obtain ⟨hqueue, hnone⟩ := h.closed hclosed
  have hcarried : c.carriedIds = [] := by
    rw [carriedIds, List.map_eq_nil_iff, List.filterMap_eq_nil_iff]
    exact hnone
  have hplaces := h.places
  rw [hqueue, hcarried] at hplaces
  simpa using hplaces

theorem closed_runAll_handlers (now : Nat) (time : UInt64) (posted : List ClientCall) :
    ∀ {c : CesClientAsync}, c.closed = true →
      (c.runAll w (posted.map (ClientCall.handler now time))).closed = true := by
  induction posted with
  | nil => intro c h; exact h
  | cons x rest ih => intro c h; exact ih (x.closed_handler now time h)

end CesClientAsync

namespace PostedClient

variable {w : SettlementWire} {p : PostedClient} {ids : Multiset Nat}

/-- The operations asked for are those still posted and those the client accounts for. -/
def Awaits (p : PostedClient) (ids : Multiset Nat) : Prop :=
  ∃ handled, p.client.Accounted handled ∧ (p.posted.map ClientCall.id : Multiset Nat) + handled = ids

theorem Awaits.act (h : p.Awaits ids) (e : PostedEvent) :
    (e.act w p).Awaits ((e.id?.toList : Multiset Nat) + ids) := by
  obtain ⟨handled, hclient, rfl⟩ := h
  cases e with
  | call x =>
    refine ⟨handled, hclient, ?_⟩
    simp only [PostedEvent.act, PostedEvent.id?, List.map_append, List.map_cons, List.map_nil, Option.toList_some]
    rw [← Multiset.coe_add, add_right_comm, add_comm]
  | handler index now time =>
    simp only [PostedEvent.act, PostedEvent.id?, Option.toList_none, Multiset.coe_nil, zero_add]
    cases hx : p.posted[index]? with
    | none => exact ⟨handled, hclient, rfl⟩
    | some x =>
      have hran := hclient.act (w := w) (x.handler now time)
      rw [x.id?_handler, Option.toList_some, Multiset.coe_singleton] at hran
      refine ⟨_, hran, ?_⟩
      -- The handler leaves the posted ones, and its id goes to the client.
      obtain ⟨hlt, rfl⟩ := List.getElem?_eq_some_iff.mp hx
      have hperm := (List.getElem_cons_eraseIdx_perm hlt).map ClientCall.id
      rw [List.map_cons] at hperm
      rw [← Multiset.coe_eq_coe.mpr hperm, ← Multiset.cons_coe, ← Multiset.singleton_add]
      abel
  | datagram now data =>
    have hstep := hclient.act (w := w) (.datagram now data)
    have hnone : (ClientEvent.datagram now data).id? = none := rfl
    rw [hnone, Option.toList_none, Multiset.coe_nil, zero_add] at hstep
    exact ⟨_, hstep, by simp [PostedEvent.act, PostedEvent.id?]⟩
  | sweep now => exact ⟨_, hclient.sweep, by simp [PostedEvent.act, PostedEvent.id?]⟩
  | close => exact ⟨_, hclient.close.1, by simp [PostedEvent.act, PostedEvent.id?]⟩

theorem Awaits.runAll (events : List PostedEvent) : ∀ {p : PostedClient} {ids : Multiset Nat}, p.Awaits ids →
    (p.runAll w events).Awaits ((events.filterMap PostedEvent.id? : Multiset Nat) + ids) := by
  induction events with
  | nil => intro p ids h; simpa [PostedClient.runAll] using h
  | cons e rest ih =>
    intro p ids h
    have hrest := ih (h.act (w := w) e)
    rw [coe_filterMap_cons, add_assoc]
    exact hrest

theorem awaits_create (ownKey peerServerKey : Hash) (numChannels maxRetries : Nat) :
    (create ownKey peerServerKey numChannels maxRetries).Awaits 0 :=
  ⟨0, accounted_create ownKey peerServerKey numChannels maxRetries, rfl⟩

end PostedClient

/-- In every history each callback fires at most once. After `close` it has fired exactly when its handler is not
still posted, and once `io_` has run what is posted every callback has fired exactly once. `pendingCount_` is the
number of queued operations and busy channels; and no operation is in two places, or completed and still in one. -/
theorem settlement_lifecycle (w : SettlementWire) (ownKey peerServerKey : Hash) (numChannels maxRetries : Nat)
    (events : List PostedEvent) (hids : (events.filterMap PostedEvent.id?).Nodup) :
    let p := (PostedClient.create ownKey peerServerKey numChannels maxRetries).runAll w events
    let closed : PostedClient := { p with client := p.client.close }
    (∀ id, (p.client.done.map Completion.op).count id ≤ 1) ∧
      (∀ id ∈ events.filterMap PostedEvent.id?,
        (closed.client.done.map Completion.op).count id = 1 ↔ id ∉ closed.posted.map ClientCall.id) ∧
      (∀ now time, ∀ id ∈ events.filterMap PostedEvent.id?,
        ((closed.drain w now time).done.map Completion.op).count id = 1) ∧
      p.client.pendingCount = p.client.queue.length + p.client.channels.countP (·.state = .busy) ∧
      (p.posted.map ClientCall.id ++ p.client.queue.map QueuedOp.id ++ p.client.carriedIds ++
        p.client.done.map Completion.op).Nodup := by
  intro p closed
  have hrun := (PostedClient.awaits_create ownKey peerServerKey numChannels maxRetries).runAll (w := w) events
  rw [add_zero] at hrun
  obtain ⟨handled, h, hasked⟩ := hrun
  change p.client.Accounted handled at h
  change (p.posted.map ClientCall.id : Multiset Nat) + handled = events.filterMap PostedEvent.id? at hasked
  have hall : (p.posted.map ClientCall.id ++ p.client.queue.map QueuedOp.id ++ p.client.carriedIds ++
      p.client.done.map Completion.op).Nodup := by
    rw [← Multiset.coe_nodup, List.append_assoc, List.append_assoc, ← Multiset.coe_add, ← List.append_assoc, h.places,
      hasked]
    exact hids
  obtain ⟨hclose, hclosed⟩ := h.close
  refine ⟨fun id => ?_, fun id hid => ?_, fun now time id hid => ?_, h.pending, hall⟩
  · exact List.nodup_iff_count_le_one.mp (List.nodup_append.mp hall).2.1 id
  · -- Each id asked for is counted once: among the posted ones, or among those `close` has completed.
    have hdone := hclose.done_of_closed hclosed
    have hone := List.count_eq_one_of_mem hids hid
    rw [← Multiset.coe_count, ← hasked, ← hdone, Multiset.count_add, Multiset.coe_count, Multiset.coe_count] at hone
    rw [← List.count_pos_iff]
    change (p.client.close.done.map Completion.op).count id = 1 ↔ ¬0 < (p.posted.map ClientCall.id).count id
    omega
  · have hdrain := hclose.runAll (w := w) (p.posted.map (ClientCall.handler now time))
    have hposted : (p.posted.map (ClientCall.handler now time)).filterMap ClientEvent.id? =
        p.posted.map ClientCall.id := by
      rw [List.filterMap_map, ← List.filterMap_eq_map]
      exact List.filterMap_congr fun x _ => x.id?_handler now time
    rw [hposted, hasked] at hdrain
    have hdone := hdrain.done_of_closed (closed_runAll_handlers now time p.posted hclosed)
    change ((p.client.close.runAll w (p.posted.map (ClientCall.handler now time))).done.map Completion.op).count id = 1
    rw [(Multiset.coe_eq_coe.mp hdone).count_eq]
    exact List.count_eq_one_of_mem hids hid

theorem settlement_lifecycle_one_gossip :
    ((PostedClient.create impostorKey peerKey 1 7).runAll tagWire
      [.call (.gossip 7 impostorKey impostorKey impostorKey 1000 []), .handler 0 0 0]).client.pendingCount = 1 := by
  rw [(settlement_lifecycle tagWire impostorKey peerKey 1 7
    [.call (.gossip 7 impostorKey impostorKey impostorKey 1000 []), .handler 0 0 0] (by decide)).2.2.2.1]
  decide +kernel

/-- `openTransfer` and then `close`: when `close` returns the callback has not fired. It fires, with
`CES_ERROR_INTERNAL`, if `io_` runs the handler afterwards. -/
theorem closed_before_handler :
    let p := (PostedClient.create impostorKey peerKey 1 7).runAll tagWire [.call (.openTransfer 7 peerKey 1000), .close]
    p.client.closed = true ∧ p.client.done = [] ∧ (p.drain tagWire 0 0).done = [⟨7, cesErrorInternal, 0⟩] := by
  decide +kernel

/-! ### Deadlines and retries -/

/-- The time since the operation was sent is over. -/
def RetryDue (now : Nat) (ch : SettlementChannel) (op : QueuedOp) : Prop :=
  (if op.kind = .gossip then gossipRetryMs else retryMs) < now - ch.sentAt

/-- The operation has a deadline, and it is over. -/
def QueuedOp.Expired (now : Nat) (op : QueuedOp) : Prop := op.deadline ≠ 0 ∧ op.deadline ≤ now

/-- A sweep at `now` completes the operation of a busy channel. -/
def GivesUp (maxRetries now : Nat) (ch : SettlementChannel) (op : QueuedOp) : Prop :=
  op.Expired now ∨ RetryDue now ch op ∧ maxRetries ≤ ch.retries + 1

def QueuedOp.timedOut (op : QueuedOp) : Completion := ⟨op.id, cesErrorTimeout, 0⟩

/-- How often an operation was sent. -/
def CesClientAsync.timesSent (c : CesClientAsync) (op : QueuedOp) : Nat :=
  c.sent.countP (fun datagram => datagram.drop minxEnvelopeBytes == op.signedPayload)

namespace CesClientAsync

variable {w : SettlementWire} {c : CesClientAsync} {now : Nat} {ids : Multiset Nat}

theorem sweepChannel_done (c : CesClientAsync) (ch : SettlementChannel) (x : Completion) :
    x ∈ (sweepChannel w now c ch).2.done ↔
      x ∈ c.done ∨ ∃ op, ch.state = .busy ∧ ch.currentOp = some op ∧ GivesUp c.maxRetries now ch op ∧
        x = op.timedOut := by
  unfold sweepChannel
  split
  next hstate =>
    have hsame : (∃ op, ch.state = .busy ∧ ch.currentOp = some op ∧ GivesUp c.maxRetries now ch op ∧ x = op.timedOut) ↔
        False := by simp [hstate]
    rw [hsame, or_false]
    split_ifs <;> rfl
  next op hstate hop =>
    have honly : (∃ op, ch.state = .busy ∧ ch.currentOp = some op ∧ GivesUp c.maxRetries now ch op ∧ x = op.timedOut) ↔
        GivesUp c.maxRetries now ch op ∧ x = op.timedOut := by simp [hstate, hop]
    have hgiven : ∀ retries, x ∈ (c.giveUp ch op retries).2.done ↔ x ∈ c.done ∨ x = op.timedOut := by
      intro retries
      simp [giveUp, fireOpCallback, QueuedOp.timedOut, or_comm]
    rw [honly]
    simp only [GivesUp, QueuedOp.Expired, RetryDue]
    generalize (if op.kind = .gossip then gossipRetryMs else retryMs) = wait
    split_ifs with hexpired hwait hretries
    · simp [hgiven, hexpired]
    · simp [hexpired, Nat.not_lt.mpr hwait]
    · simp [hgiven, hexpired, hretries, Nat.lt_of_not_le hwait]
    · simp only [hexpired, hretries, and_false, or_self, false_and, or_false]
      rfl
  next hidle hbusy =>
    have hsame : (∃ op, ch.state = .busy ∧ ch.currentOp = some op ∧ GivesUp c.maxRetries now ch op ∧ x = op.timedOut) ↔
        False := by
      simp only [iff_false]
      rintro ⟨op, hstate, hop, -⟩
      exact hbusy op hstate hop
    rw [hsame, or_false]

theorem sweepChannel_maxRetries (c : CesClientAsync) (ch : SettlementChannel) :
    (sweepChannel w now c ch).2.maxRetries = c.maxRetries := by
  unfold sweepChannel
  split
  next => split_ifs <;> rfl
  next op _ _ =>
    generalize (if op.kind = .gossip then gossipRetryMs else retryMs) = wait
    split_ifs <;> rfl
  next => rfl

/-- Going over the channels completes the operations that are given up, and no other. -/
theorem sweepChannels_done (x : Completion) (channels : List SettlementChannel) : ∀ c : CesClientAsync,
    x ∈ (eachChannel (sweepChannel w now) c channels).2.done ↔ x ∈ c.done ∨ ∃ ch ∈ channels, ∃ op,
      ch.state = .busy ∧ ch.currentOp = some op ∧ GivesUp c.maxRetries now ch op ∧ x = op.timedOut := by
  induction channels with
  | nil => intro c; simp [eachChannel]
  | cons ch rest ih =>
    intro c
    have hrest := ih (sweepChannel w now c ch).2
    rw [sweepChannel_done, sweepChannel_maxRetries, or_assoc] at hrest
    simpa [eachChannel] using hrest

theorem dispatch_done (w : SettlementWire) (now : Nat) (c : CesClientAsync) : (c.dispatch w now).done = c.done := by
  unfold dispatch
  split_ifs
  · rfl
  · exact eachChannel_fixes (π := CesClientAsync.done) (by intro c ch; unfold dispatchChannel; split <;> rfl)
      c.channels c

theorem sweep_done (hopen : c.closed = false) (x : Completion) :
    x ∈ (c.sweep w now).done ↔ x ∈ c.done ∨ ∃ ch ∈ c.channels, ∃ op,
      ch.state = .busy ∧ ch.currentOp = some op ∧ GivesUp c.maxRetries now ch op ∧ x = op.timedOut := by
  simp only [sweep, hopen, Bool.false_eq_true, if_false, dispatch_done]
  exact sweepChannels_done x c.channels c

/-- An operation in a channel that is due or expired is completed by a sweep exactly when it is expired, or at most
one try is allowed. -/
theorem Accounted.sweep_carried (h : c.Accounted ids) (hids : ids.Nodup) (hopen : c.closed = false)
    {ch : SettlementChannel} (hch : ch ∈ c.channels) {op : QueuedOp} (hop : ch.currentOp = some op)
    (hdue : RetryDue now ch op ∨ op.Expired now) :
    op.timedOut ∈ (c.sweep w now).done ↔ op.Expired now ∨ c.maxRetries ≤ 1 := by
  have hnodup := h.nodup hids
  have hmem := mem_carriedIds hch hop
  rw [sweep_done hopen]
  constructor
  · rintro (hdone | ⟨ch', hch', op', hbusy, hop', hgives, heq⟩)
    · have hid : op.id ∈ c.done.map Completion.op := List.mem_map_of_mem hdone
      exact absurd rfl ((List.nodup_append.mp hnodup).2.2 op.id (List.mem_append_right _ hmem) op.id hid)
    · -- Ids are distinct, so the operation given up is this one; a busy channel has not retried.
      have hcarried : c.carriedIds.Nodup := (List.nodup_append.mp (List.nodup_append.mp hnodup).1).2.1
      obtain rfl : op = op' := List.inj_on_of_nodup_map hcarried (List.mem_filterMap.mpr ⟨ch, hch, hop⟩)
        (List.mem_filterMap.mpr ⟨ch', hch', hop'⟩) (congrArg Completion.op heq)
      have hfresh := (h.sound ch' hch').fresh hbusy
      rcases hgives with hexpired | ⟨-, hretries⟩
      · exact .inl hexpired
      · exact .inr (by omega)
  · intro hcase
    have hbusy := (h.sound ch hch).busy.mp (by simp [hop])
    refine .inr ⟨ch, hch, op, hbusy, hop, ?_, rfl⟩
    rcases hcase with hexpired | hmax
    · exact .inl hexpired
    · rcases hdue with hdue | hexpired
      · exact .inr ⟨hdue, by omega⟩
      · exact .inl hexpired

/-- A sweep never completes a queued operation. -/
theorem Accounted.sweep_queued (h : c.Accounted ids) (hids : ids.Nodup) (hopen : c.closed = false)
    {op : QueuedOp} (hop : op ∈ c.queue) : op.timedOut ∉ (c.sweep w now).done := by
  obtain ⟨hheld, -, hdone⟩ := List.nodup_append.mp (h.nodup hids)
  have hmem : op.id ∈ c.queue.map QueuedOp.id := List.mem_map_of_mem hop
  rw [sweep_done hopen]
  rintro (hcompleted | ⟨ch, hch, op', -, hop', -, heq⟩)
  · exact hdone op.id (List.mem_append_left _ hmem) op.id (List.mem_map_of_mem hcompleted) rfl
  · exact (List.nodup_append.mp hheld).2.2 op.id hmem op'.id (mem_carriedIds hch hop') (congrArg Completion.op heq)

end CesClientAsync

/-- In every history, an operation that is not completed is queued or carried. A sweep completes the expired ones
among them, and the carried ones that are due and were sent `maxRetries` times, exactly when no expired operation is
queued and the due ones are expired or `maxRetries` is at most one. -/
theorem sweep_completes_iff (w : SettlementWire) (ownKey peerServerKey : Hash) (numChannels maxRetries : Nat)
    (events : List ClientEvent) (hids : (events.filterMap ClientEvent.id?).Nodup) (now : Nat) :
    let c := (create ownKey peerServerKey numChannels maxRetries).runAll w events
    c.closed = false →
    (∀ id ∈ events.filterMap ClientEvent.id?,
      id ∈ c.queue.map QueuedOp.id ∨ id ∈ c.carriedIds ∨ id ∈ c.done.map Completion.op) ∧
    (((∀ op ∈ c.queue ++ c.channels.filterMap SettlementChannel.currentOp, op.Expired now →
        op.timedOut ∈ (c.sweep w now).done) ∧
      (∀ ch ∈ c.channels, ∀ op, ch.currentOp = some op → c.maxRetries ≤ c.timesSent op → RetryDue now ch op →
        op.timedOut ∈ (c.sweep w now).done)) ↔
    (∀ op ∈ c.queue, ¬op.Expired now) ∧
      (∀ ch ∈ c.channels, ∀ op, ch.currentOp = some op → c.maxRetries ≤ c.timesSent op → RetryDue now ch op →
        op.Expired now ∨ c.maxRetries ≤ 1)) := by
  intro c hopen
  have h : c.Accounted (events.filterMap ClientEvent.id?) := by
    have hrun := (accounted_create ownKey peerServerKey numChannels maxRetries).runAll (w := w) events
    rwa [add_zero] at hrun
  refine ⟨fun id hid => ?_, ?_, ?_⟩
  · rw [← Multiset.mem_coe, ← h.places, Multiset.mem_coe, List.mem_append, List.mem_append, or_assoc] at hid
    exact hid
  · rintro ⟨hexpired, hretried⟩
    constructor
    · intro op hop hover
      exact h.sweep_queued hids hopen hop (hexpired op (List.mem_append_left _ hop) hover)
    · intro ch hch op hop hsent hdue
      exact (h.sweep_carried hids hopen hch hop (.inl hdue)).mp (hretried ch hch op hop hsent hdue)
  · rintro ⟨hqueue, hretried⟩
    constructor
    · intro op hop hover
      rcases List.mem_append.mp hop with hop | hop
      · exact absurd hover (hqueue op hop)
      · obtain ⟨ch, hch, hcarried⟩ := List.mem_filterMap.mp hop
        exact (h.sweep_carried hids hopen hch hcarried (.inr hover)).mpr (.inl hover)
    · intro ch hch op hop hsent hdue
      exact (h.sweep_carried hids hopen hch hop (.inl hdue)).mpr (hretried ch hch op hop hsent hdue)

/-- An INFO that answers the handshake with the given password. -/
def infoAnswering (pass : Nat) : Bytes := tagWire.info :: 0 :: beBytes 8 9 ++ beBytes 8 pass ++ peerKey.bytes ++ [0]

def askedGossip : ClientEvent := .gossip 0 0 7 impostorKey impostorKey impostorKey 1000 []

instance (now : Nat) (op : QueuedOp) : Decidable (op.Expired now) := inferInstanceAs (Decidable (_ ∧ _))

instance (now : Nat) (ch : SettlementChannel) (op : QueuedOp) : Decidable (RetryDue now ch op) :=
  inferInstanceAs (Decidable (_ < _))

theorem sweep_completes_in_flight :
    (⟨7, cesErrorTimeout, 0⟩ : Completion) ∈ (((create impostorKey peerKey 1 7).runAll tagWire
      [askedGossip, .datagram 1 (infoAnswering 5)]).sweep tagWire 6000).done := by
  have h := (sweep_completes_iff tagWire impostorKey peerKey 1 7 [askedGossip, .datagram 1 (infoAnswering 5)]
    (by decide)
    6000 (by decide +kernel)).2.mpr
  generalize hc : (create impostorKey peerKey 1 7).runAll tagWire
    [askedGossip, .datagram 1 (infoAnswering 5)] = c at h ⊢
  have hop : ∃ op ∈ c.queue ++ c.channels.filterMap SettlementChannel.currentOp,
      op.Expired 6000 ∧ op.timedOut = ⟨7, cesErrorTimeout, 0⟩ := by
    subst hc
    decide +kernel
  obtain ⟨op, hop, hexpired, heq⟩ := hop
  rw [← heq]
  refine (h ⟨?_, fun ch hch op hop hsent => absurd hsent ?_⟩).1 op hop hexpired
  · subst hc
    decide +kernel
  · revert ch op
    simp only [← Option.mem_def]
    subst hc
    decide +kernel

/-- A gossip whose handshake is not answered stays queued past its deadline of five seconds; and with two tries
allowed, one that was sent twice and not answered goes back to the queue. -/
theorem given_up_too_late :
    (let c := (create impostorKey peerKey 1 7).runAll tagWire [askedGossip];
      (∀ op ∈ c.queue, op.Expired 6000) ∧ (c.sweep tagWire 6000).done = [] ∧ (c.sweep tagWire 6000).queue.length = 1) ∧
    (let c := (create impostorKey peerKey 1 2).runAll tagWire
        [askedGossip, .datagram 1 (infoAnswering 5), .sweep 1003, .datagram 1004 (infoAnswering 7)];
      (∀ ch ∈ c.channels, ∀ op ∈ ch.currentOp, c.timesSent op = 2 ∧ RetryDue 2100 ch op) ∧
      (c.sweep tagWire 2100).done = [] ∧ (c.sweep tagWire 2100).queue.length = 1) := by
  decide +kernel

/-! ### The send buffer -/

/-- The capacity of the buffer in `sendOp`. -/
def sendOpBufBytes : Nat := 512

/-- The operation `gossip` queues. -/
def gossipOp (w : SettlementWire) (c : CesClientAsync) (now : Nat) (time : UInt64) (id : Nat)
    (authorId msgId dest : Hash) (budget : UInt64) (msg : Bytes) : QueuedOp :=
  ⟨id, .gossip, gossipBytes w c.ownKey c.peerServerKey authorId msgId dest budget time msg, now + gossipDeadlineMs⟩

/-- The frame `sendOp` builds for a gossip fits its buffer exactly when the message has at most 270 bytes. -/
theorem gossip_frame_fits_iff (w : SettlementWire) (hsign : ∀ body, (w.sign body).length = signatureBytes)
    (c : CesClientAsync) (now later : Nat) (ch : SettlementChannel) (time : UInt64) (id : Nat)
    (authorId msgId dest : Hash) (budget : UInt64) (msg : Bytes) :
    ∃ frame, (c.sendOp w later ch (gossipOp w c now time id authorId msgId dest budget msg)).2.sent =
      c.sent ++ [frame] ∧
      (frame.length ≤ sendOpBufBytes ↔ msg.length ≤ 270) := by
  refine ⟨_, rfl, ?_⟩
  simp [gossipOp, gossipBytes, hsign, signatureBytes, sendOpBufBytes, ByteArr.size_eq]
  omega

/-- A gossip of the longest message the protocol takes, 1024 bytes, needs a frame of 1266 bytes. -/
theorem longest_gossip_overflows :
    let w := { tagWire with sign := fun _ => List.replicate 65 0 }
    let c := create impostorKey peerKey 1 7
    ((c.sendOp w 1 .fresh (gossipOp w c 0 0 7 impostorKey impostorKey impostorKey 1000
      (List.replicate 1024 0))).2.sent.map
      List.length) = [1266] := by
  decide +kernel

theorem gossip_frame_fits_short :
    ∃ frame, ((create impostorKey peerKey 1 7).sendOp { tagWire with sign := fun _ => List.replicate 65 0 } 1 .fresh
        (gossipOp { tagWire with sign := fun _ => List.replicate 65 0 } (create impostorKey peerKey 1 7) 0 0 7
          impostorKey
          impostorKey impostorKey 1000 [1, 2, 3])).2.sent = [frame] ∧ frame.length ≤ sendOpBufBytes := by
  obtain ⟨frame, hsent, hfits⟩ := gossip_frame_fits_iff { tagWire with sign := fun _ => List.replicate 65 0 }
    (fun _ => List.length_replicate) (create impostorKey peerKey 1 7) 0 1 .fresh 0 7 impostorKey
      impostorKey impostorKey 1000
    [1, 2, 3]
  exact ⟨frame, hsent, hfits.mpr (by decide)⟩

end Ces
