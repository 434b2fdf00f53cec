import Ces.Types
import Mathlib.Data.List.Chain

/-!
# The channel meter

`cesplex/meter.cpp`. `ChannelMeter::track` starts to measure a channel and every `doTick` reports what the channel
used since the tick before: differences of the three RUDP counters, and the age in whole seconds. The counters keep
the value they were read at as the next baseline, so their differences telescope. The age keeps the time of the tick
as its baseline although only its whole seconds were reported, so the fraction of a second is lost at every tick.
-/

namespace Ces

open Ces.Lib

def kMicrosPerSecond : UInt64 := 1000000

/-- What `Rudp::metricsFor` says of a channel. -/
structure ChannelMetrics where
  bytesSent : UInt64 := 0
  bytesReceived : UInt64 := 0
  memoryByteSeconds : UInt64 := 0
  deriving DecidableEq

structure CesPlexUsage where
  bytesSent : UInt64
  bytesReceived : UInt64
  memByteSeconds : UInt64
  ageSeconds : UInt64
  deriving DecidableEq

structure MeteredChannel where
  tag : String := ""
  payerPfx : HashPrefix := ByteArr.zero 8
  last : ChannelMetrics := {}
  lastMeteredAtUs : UInt64 := 0
  delta : CesPlexUsage := ⟨0, 0, 0, 0⟩

def guardedDelta (cur last : UInt64) : UInt64 := if last ≤ cur then cur - last else cur

/-- `channels_`, by peer and channel id. -/
abbrev MeteredChannels (K : Type) := K → Option MeteredChannel

/-- The time of a tick and the counters `metricsFor` then has; a channel that is gone has none. -/
structure MeterTick (K : Type) where
  now : UInt64
  metricsFor : K → Option ChannelMetrics

/-- The counters of one channel at one time. -/
structure MeterReading where
  now : UInt64
  metrics : ChannelMetrics := {}

variable {K : Type}

namespace MeteredChannels

def track [DecidableEq K] (channels : MeteredChannels K) (key : K) (tag : String) (payerPfx : HashPrefix)
    (nowMicros : UInt64) :
    MeteredChannels K :=
  let mc : MeteredChannel := { (channels key).getD {} with tag := tag, payerPfx := payerPfx }
  Function.update channels key
    (some (if mc.lastMeteredAtUs = 0 then { mc with lastMeteredAtUs := nowMicros } else mc))

end MeteredChannels

namespace MeteredChannel

/-- The deltas of a tick that reads `m` at `now`. -/
def usage (mc : MeteredChannel) (m : ChannelMetrics) (now : UInt64) : CesPlexUsage where
  bytesSent := guardedDelta m.bytesSent mc.last.bytesSent
  bytesReceived := guardedDelta m.bytesReceived mc.last.bytesReceived
  memByteSeconds := guardedDelta m.memoryByteSeconds mc.last.memoryByteSeconds
  ageSeconds := if mc.lastMeteredAtUs < now then (now - mc.lastMeteredAtUs) / kMicrosPerSecond else 0

/-- The channel's record after that tick. -/
def metered (mc : MeteredChannel) (m : ChannelMetrics) (now : UInt64) : MeteredChannel :=
  { mc with delta := mc.usage m now, last := m, lastMeteredAtUs := now }

/-- The tick reports to the host: there is one, and a payer is bound. -/
def Reported (host : Bool) (mc : MeteredChannel) : Prop := host = true ∧ mc.payerPfx ≠ ByteArr.zero 8

instance (host : Bool) (mc : MeteredChannel) : Decidable (mc.Reported host) := inferInstanceAs (Decidable (_ ∧ _))

def baseline (mc : MeteredChannel) : MeterReading := ⟨mc.lastMeteredAtUs, mc.last⟩

end MeteredChannel

namespace MeteredChannels

/-- One pass over the channels: the channels after it, and what the host is told of each. -/
def doTick (host : Bool) (channels : MeteredChannels K) (tick : MeterTick K) :
    MeteredChannels K × (K → Option CesPlexUsage) :=
  (fun key => do return (← channels key).metered (← tick.metricsFor key) tick.now,
    fun key => do
      let mc ← channels key
      let m ← tick.metricsFor key
      if mc.Reported host then some (mc.usage m tick.now) else none)

/-- What the host is told of the channel `key` over a run of ticks. -/
def reports (host : Bool) (key : K) : MeteredChannels K → List (MeterTick K) → List CesPlexUsage
  | _, [] => []
  | channels, tick :: ticks =>
    ((channels.doTick host tick).2 key).toList ++ reports host key (channels.doTick host tick).1 ticks

end MeteredChannels

/-! ## Telescoping -/

/-- The list of `f a b` over neighbours `a`, `b`. -/
def pairwise {α β : Type} (f : α → α → β) : α → List α → List β
  | _, [] => []
  | a, b :: l => f a b :: pairwise f b l

/-- Differences of a measure along a chain add up to its last value. -/
theorem sum_pairwise {α : Type} {R : α → α → Prop} {d : α → α → Nat} {h : α → Nat}
    (hstep : ∀ a b, R a b → h a + d a b = h b) (l : List α) :
    ∀ a, (a :: l).IsChain R → h a + (pairwise d a l).sum = h (l.getLastD a) := by
  induction l with
  | nil => intro a _; simp [pairwise]
  | cons b l ih =>
    intro a hchain
    rw [List.isChain_cons_cons] at hchain
    have hab := hstep a b hchain.1
    have hrest := ih b hchain.2
    rw [List.getLastD_cons]
    simp only [pairwise, List.sum_cons]
    omega

/-- Rounding down each part loses nothing of the whole exactly when the remainders stay below one unit. -/
theorem sum_div_eq_iff {p : Nat} (hp : 0 < p) (l : List Nat) :
    (l.map (· / p)).sum = l.sum / p ↔ (l.map (· % p)).sum < p := by
  have hsplit : p * (l.map (· / p)).sum + (l.map (· % p)).sum = l.sum := by
    induction l with
    | nil => simp
    | cons d l ih =>
      have hd := Nat.div_add_mod d p
      simp only [List.map_cons, List.sum_cons, Nat.mul_add]
      omega
  rw [← hsplit, Nat.mul_add_div hp]
  constructor
  · intro h
    exact (Nat.div_eq_zero_iff_lt hp).mp (by omega)
  · intro h
    rw [Nat.div_eq_of_lt h, Nat.add_zero]

theorem pairwise_map {α β γ : Type} (g : β → γ) (f : α → α → β) (a : α) (l : List α) :
    (pairwise f a l).map g = pairwise (fun a b => g (f a b)) a l := by
  induction l generalizing a with
  | nil => rfl
  | cons b l ih => simp [pairwise, ih]

theorem pairwise_congr {α β : Type} {R : α → α → Prop} {f g : α → α → β} (hstep : ∀ a b, R a b → f a b = g a b)
    (l : List α) : ∀ a, (a :: l).IsChain R → pairwise f a l = pairwise g a l := by
  induction l with
  | nil => intro a _; rfl
  | cons b l ih =>
    intro a hchain
    rw [List.isChain_cons_cons] at hchain
    simp [pairwise, hstep a b hchain.1, ih b hchain.2]

/-! ## One channel over a run of ticks -/

namespace MeterReading

/-- What a tick measures between two readings. -/
def usage (a b : MeterReading) : CesPlexUsage :=
  ({ last := a.metrics, lastMeteredAtUs := a.now } : MeteredChannel).usage b.metrics b.now

/-- Time goes on and no counter decreases. -/
structure Before (a b : MeterReading) : Prop where
  now : a.now ≤ b.now
  bytesSent : a.metrics.bytesSent ≤ b.metrics.bytesSent
  bytesReceived : a.metrics.bytesReceived ≤ b.metrics.bytesReceived
  memoryByteSeconds : a.metrics.memoryByteSeconds ≤ b.metrics.memoryByteSeconds

/-- The microseconds between two readings. -/
def spacing (a b : MeterReading) : Nat := b.now.toNat - a.now.toNat

end MeterReading

open MeterReading

theorem guardedDelta_toNat {cur last : UInt64} (h : last ≤ cur) :
    last.toNat + (guardedDelta cur last).toNat = cur.toNat := by
  have hle : last.toNat ≤ cur.toNat := UInt64.le_iff_toNat_le.mp h
  rw [guardedDelta, if_pos h, UInt64.toNat_sub_of_le _ _ h]
  omega

theorem usage_age {a b : MeterReading} (h : a.Before b) :
    (a.usage b).ageSeconds.toNat = spacing a b / 1000000 := by
  have hle : a.now.toNat ≤ b.now.toNat := UInt64.le_iff_toNat_le.mp h.now
  simp only [MeterReading.usage, MeteredChannel.usage, spacing]
  by_cases hlt : a.now < b.now
  · rw [if_pos hlt, UInt64.toNat_div, UInt64.toNat_sub_of_le _ _ h.now]
    rfl
  · have heq : b.now.toNat = a.now.toNat := le_antisymm (UInt64.not_lt.mp hlt) hle
    rw [if_neg hlt, heq]
    simp

/-- The reading of the channel `key` at a tick. -/
def MeterTick.reading (key : K) (tick : MeterTick K) : MeterReading := ⟨tick.now, (tick.metricsFor key).getD {}⟩

/-- A channel that stays alive is told of at every tick, each time from the reading before; or at none. -/
theorem reports_eq (host : Bool) (key : K) (ticks : List (MeterTick K))
    (halive : ∀ tick ∈ ticks, (tick.metricsFor key).isSome) :
    ∀ (channels : MeteredChannels K) (mc : MeteredChannel), channels key = some mc →
      channels.reports host key ticks =
        if mc.Reported host then pairwise MeterReading.usage mc.baseline (ticks.map (MeterTick.reading key))
          else [] := by
  induction ticks with
  | nil => intro channels mc _; simp [MeteredChannels.reports, pairwise]
  | cons tick ticks ih =>
    intro channels mc hmc
    obtain ⟨m, hm⟩ := Option.isSome_iff_exists.mp (halive tick (by simp))
    have hnext : (channels.doTick host tick).1 key = some (mc.metered m tick.now) := by
      simp [MeteredChannels.doTick, hmc, hm]
    have htold : (channels.doTick host tick).2 key = if mc.Reported host then some (mc.usage m tick.now) else none := by
      simp [MeteredChannels.doTick, hmc, hm]
    have hrest := ih (fun t ht => halive t (by simp [ht])) _ _ hnext
    have hsame : (mc.metered m tick.now).Reported host ↔ mc.Reported host := Iff.rfl
    have hread : MeterTick.reading key tick = (mc.metered m tick.now).baseline := by
      simp [MeterTick.reading, hm, MeteredChannel.baseline, MeteredChannel.metered]
    simp only [MeteredChannels.reports, hrest, htold, hsame, List.map_cons, pairwise, hread]
    by_cases hrep : mc.Reported host
    · simp only [if_pos hrep, Option.toList_some, List.singleton_append]
      rfl
    · simp [if_neg hrep]

/-- The totals the host was told. -/
def total (field : CesPlexUsage → UInt64) (usages : List CesPlexUsage) : Nat :=
    (usages.map fun u => (field u).toNat).sum

theorem total_pairwise (field : CesPlexUsage → UInt64) (h : MeterReading → Nat) {a : MeterReading}
    {l : List MeterReading}
    (hchain : (a :: l).IsChain Before) (hstep : ∀ a b, Before a b → h a + (field (a.usage b)).toNat = h b) :
    h a + total field (pairwise MeterReading.usage a l) = h (l.getLastD a) := by
  rw [total, pairwise_map]
  exact sum_pairwise hstep l a hchain

/-- The seconds told are the whole seconds elapsed exactly when the fractions dropped at the ticks stay below one
second. -/
theorem total_age_iff {a : MeterReading} {l : List MeterReading} (hchain : (a :: l).IsChain Before) :
    total CesPlexUsage.ageSeconds (pairwise MeterReading.usage a l) = spacing a (l.getLastD a) / 1000000 ↔
      ((pairwise spacing a l).map (· % 1000000)).sum < 1000000 := by
  have hages : total CesPlexUsage.ageSeconds (pairwise MeterReading.usage a l) =
      ((pairwise spacing a l).map (· / 1000000)).sum := by
    rw [total, pairwise_map, pairwise_map]
    exact congrArg List.sum (pairwise_congr (fun _ _ => usage_age) l a hchain)
  have hspan : a.now.toNat + (pairwise spacing a l).sum = (l.getLastD a).now.toNat := by
    refine sum_pairwise (h := fun r => r.now.toNat) ?_ l a hchain
    intro a b hab
    have hle : a.now.toNat ≤ b.now.toNat := UInt64.le_iff_toNat_le.mp hab.now
    simp only [spacing]
    omega
  have helapsed : spacing a (l.getLastD a) = (pairwise spacing a l).sum := by
    simp only [spacing] at hspan ⊢
    omega
  rw [hages, helapsed]
  exact sum_div_eq_iff (by norm_num) _

/-- A channel tracked at `start`, not tracked before, and then read at the ticks. -/
structure Metered (channels : MeteredChannels K) (key : K) (start : UInt64) (ticks : List (MeterTick K)) : Prop where
  fresh : channels key = none
  alive : ∀ tick ∈ ticks, (tick.metricsFor key).isSome
  ordered : ((⟨start, {}⟩ : MeterReading) :: ticks.map (MeterTick.reading key)).IsChain Before

theorem ChannelMetrics.eq_zero_iff (m : ChannelMetrics) :
    m = {} ↔ m.bytesSent.toNat = 0 ∧ m.bytesReceived.toNat = 0 ∧ m.memoryByteSeconds.toNat = 0 := by
  obtain ⟨sent, received, memory⟩ := m
  simp [ChannelMetrics.mk.injEq, ← UInt64.toNat_inj]

variable [DecidableEq K]

/-- The host is told exactly the counters of the last tick and the whole seconds since `track`: when it is told at
all, this holds exactly if the fractions of a second at the ticks stay below one second together; when it is told
nothing, exactly if there is nothing to tell. -/
theorem metering_telescopes_iff {channels : MeteredChannels K} {key : K} {start : UInt64} {ticks : List (MeterTick K)}
    (h : Metered channels key start ticks) (host : Bool) (tag : String) (payerPfx : HashPrefix) :
    let usages := (channels.track key tag payerPfx start).reports host key ticks
    let readings := ticks.map (MeterTick.reading key)
    let last := readings.getLastD ⟨start, {}⟩
    (total CesPlexUsage.bytesSent usages = last.metrics.bytesSent.toNat ∧
      total CesPlexUsage.bytesReceived usages = last.metrics.bytesReceived.toNat ∧
      total CesPlexUsage.memByteSeconds usages = last.metrics.memoryByteSeconds.toNat ∧
      total CesPlexUsage.ageSeconds usages = (last.now.toNat - start.toNat) / 1000000) ↔
    if host = true ∧ payerPfx ≠ ByteArr.zero 8 then
      ((pairwise spacing ⟨start, {}⟩ readings).map (· % 1000000)).sum < 1000000
    else last.metrics = {} ∧ last.now.toNat - start.toNat < 1000000 := by
  intro usages readings last
  obtain ⟨hfresh, halive, hchain⟩ := h
  have htracked : channels.track key tag payerPfx start key =
      some { tag := tag, payerPfx := payerPfx, lastMeteredAtUs := start } := by
    simp [MeteredChannels.track, hfresh]
  have husages := reports_eq host key ticks halive _ _ htracked
  by_cases hrep : host = true ∧ payerPfx ≠ ByteArr.zero 8
  · have hpairs : usages = pairwise MeterReading.usage ⟨start, {}⟩ readings := husages.trans (if_pos hrep)
    have hsent := total_pairwise CesPlexUsage.bytesSent (fun r => r.metrics.bytesSent.toNat) hchain
      (fun a b hab => guardedDelta_toNat hab.bytesSent)
    have hreceived := total_pairwise CesPlexUsage.bytesReceived (fun r => r.metrics.bytesReceived.toNat) hchain
      (fun a b hab => guardedDelta_toNat hab.bytesReceived)
    have hmemory := total_pairwise CesPlexUsage.memByteSeconds (fun r => r.metrics.memoryByteSeconds.toNat) hchain
      (fun a b hab => guardedDelta_toNat hab.memoryByteSeconds)
    simp only [UInt64.toNat_zero, Nat.zero_add] at hsent hreceived hmemory
    rw [if_pos hrep, hpairs, ← total_age_iff hchain]
    exact ⟨fun hall => hall.2.2.2, fun hage => ⟨hsent, hreceived, hmemory, hage⟩⟩
  · have hnone : usages = [] := husages.trans (if_neg hrep)
    rw [if_neg hrep, hnone, ChannelMetrics.eq_zero_iff, ← Nat.div_eq_zero_iff_lt (by norm_num : 0 < 1000000)]
    simp only [total, List.map_nil, List.sum_nil, eq_comm (a := 0), and_assoc]

/-- A channel read twice, `spacing` microseconds apart. -/
def twoTicks (spacing : UInt64) : List (MeterTick UInt32) :=
  [⟨5 + spacing, fun _ => some ⟨10, 20, 30⟩⟩, ⟨5 + spacing + spacing, fun _ => some ⟨11, 22, 33⟩⟩]

theorem metering_telescopes_two_seconds :
    Metered (fun _ => none) (7 : UInt32) 5 (twoTicks 2000000) ∧
      total CesPlexUsage.ageSeconds
        ((MeteredChannels.track (fun _ => none) (7 : UInt32) "rpc" (ByteArr.ofList 8 [1]) 5).reports true 7
          (twoTicks 2000000)) = 4 := by
  have h : Metered (fun _ => none) (7 : UInt32) 5 (twoTicks 2000000) := by
    refine ⟨rfl, by simp [twoTicks], ?_⟩
    simp only [twoTicks, List.map_cons, List.map_nil, List.isChain_cons_cons, List.isChain_singleton, and_true]
    exact ⟨⟨by decide, by decide, by decide, by decide⟩, ⟨by decide, by decide, by decide, by decide⟩⟩
  exact ⟨h, ((metering_telescopes_iff h true "rpc" (ByteArr.ofList 8 [1])).mpr (by decide)).2.2.2⟩

/-- Two ticks a second and a half apart tell two seconds of three. -/
theorem half_seconds_lost :
    Metered (fun _ => none) (7 : UInt32) 5 (twoTicks 1500000) ∧
      total CesPlexUsage.ageSeconds
        ((MeteredChannels.track (fun _ => none) (7 : UInt32) "rpc" (ByteArr.ofList 8 [1]) 5).reports true 7
          (twoTicks 1500000)) = 2 ∧
      (((twoTicks 1500000).map (MeterTick.reading 7)).getLastD ⟨5, {}⟩).now.toNat - 5 = 3000000 := by
  refine ⟨⟨rfl, by simp [twoTicks], ?_⟩, by decide, by decide⟩
  simp only [twoTicks, List.map_cons, List.map_nil, List.isChain_cons_cons, List.isChain_singleton, and_true]
  exact ⟨⟨by decide, by decide, by decide, by decide⟩, ⟨by decide, by decide, by decide, by decide⟩⟩

end Ces
