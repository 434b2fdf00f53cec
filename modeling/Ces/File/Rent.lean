import Ces.File.Pays
import Ces.Lib.LazyMeter

/-!
# Rent that is taken at a touch

`chargeRentOrDelete` takes the rent since the stamp of the sidecar, rounded down, and moves the stamp only when it took
something. Over a series of touches this is the lazy meter: a file pays no more than its rent and at least half of it,
however often it is touched. Files of the server's zone pay nothing.

That every touch starts from the stamp the last one left is up to the caller. WRITE rolls the rent, and refuses a
caller who is not the owner before it saves the sidecar: the ledger keeps the charge and the disk the old stamp.
-/

namespace Ces

open Ces.Lib Ces.Lib.Posix Ces.Lib.LazyMeter

/-- The rent of `size` bytes over an interval, rounded down, in unbounded numbers. -/
def exactRent (size : UInt64) (fee : Int) (since now : UInt64) : Nat :=
  due (size.toNat * fee.toNat) usecsPerDay since.toNat now.toNat

theorem computeOwedRent_eq {size : UInt64} {fee : Int} {since now : UInt64} (hfee : 0 < fee) (htime : since ≤ now)
    (hsmall : exactRent size fee since now < 2 ^ 63) :
    (computeOwedRent size fee since now).toNat = exactRent size fee since now := by
  have hsub : (now - since).toNat = now.toNat - since.toNat := UInt64.toNat_sub_of_le _ _ htime
  have hday : 0 < usecsPerDay := by decide
  unfold exactRent due at *
  unfold computeOwedRent
  by_cases hsame : now ≤ since
  · have hzero : now.toNat - since.toNat = 0 := Nat.sub_eq_zero_of_le (UInt64.le_iff_toNat_le.mp hsame)
    rw [if_pos hsame, hzero]
    simp
  rw [if_neg hsame]
  by_cases hempty : fee ≤ 0 ∨ size = 0
  · have hsize : size = 0 := hempty.resolve_left (not_le.mpr hfee)
    rw [if_pos hempty, hsize]
    simp
  rw [if_neg hempty, hsub]
  dsimp only
  generalize size.toNat * fee.toNat * (now.toNat - since.toNat) = product at hsmall ⊢
  -- The quotient is below 2^63 and the divisor below 2^37, so the product fits into 128 bits.
  have hproduct : product < 2 ^ 63 * usecsPerDay := (Nat.div_lt_iff_lt_mul hday).mp hsmall
  have hfits : product < 2 ^ 128 := hproduct.trans (by decide)
  rw [Nat.mod_eq_of_lt hfits]
  generalize product / usecsPerDay = quotient at hsmall ⊢
  have hbelow : ¬ 2 ^ 64 - 1 < quotient := by omega
  have hword : quotient < UInt64.size := hsmall.trans (by decide)
  rw [if_neg hbelow]
  exact UInt64.toNat_ofNat_of_lt' hword

/-- A touch: the server at that moment, and what the call meets outside it. -/
structure RentVisit where
  server : FileServer
  env : CallEnv

/-- The sidecar after a series of touches and what they took from the file's account, when no debit fails. Between the
touches the server may do anything that keeps the sidecar. -/
def rentRun (cPath sPath : List Bytes) : Sidecar → List RentVisit → Option (Sidecar × Int)
  | sc, [] => some (sc, 0)
  | sc, v :: rest =>
    match v.server.chargeRentOrDelete v.env cPath sPath sc with
    | (none, _) => none
    | (some sc', f') =>
      (rentRun cPath sPath sc' rest).map fun r =>
        (r.1, v.server.balance sc.programPubkey - f'.balance sc.programPubkey + r.2)

/-- Every amount that is owed at a touch is below `2 ^ 63`. -/
def OwedSmall (fee : Int) (cPath sPath : List Bytes) : Sidecar → List RentVisit → Prop
  | _, [] => True
  | sc, v :: rest =>
    exactRent sc.size fee sc.lastRentUs v.env.now < 2 ^ 63 ∧
      ∀ sc' f', v.server.chargeRentOrDelete v.env cPath sPath sc = (some sc', f') → OwedSmall fee cPath sPath sc' rest

namespace FileServer

variable {f f' : FileServer} {env : CallEnv} {cPath sPath : List Bytes} {sc sc' : Sidecar}

/-- One touch is one look at the meter. -/
theorem chargeRent_observe (hflat : sc.type = .flat) (hzone : isServerZone sc.name = false)
    (hfee : 0 < f.files.feeFileRent) (htime : sc.lastRentUs ≤ env.now)
    (hsmall : exactRent sc.size f.files.feeFileRent sc.lastRentUs env.now < 2 ^ 63)
    (h : f.chargeRentOrDelete env cPath sPath sc = (some sc', f')) :
    ∃ paid : Nat, f.balance sc.programPubkey - f'.balance sc.programPubkey = paid ∧
      ∀ total, LazyMeter.observe (sc.size.toNat * f.files.feeFileRent.toNat) usecsPerDay ⟨sc.lastRentUs.toNat, total⟩
        env.now.toNat = ⟨sc'.lastRentUs.toNat, total + paid⟩ := by
  have howed := computeOwedRent_eq hfee htime hsmall
  unfold LazyMeter.observe
  change ∃ paid : Nat, _ ∧ ∀ total, (if exactRent sc.size f.files.feeFileRent sc.lastRentUs env.now = 0 then _ else
    (⟨env.now.toNat, total + exactRent sc.size f.files.feeFileRent sc.lastRentUs env.now⟩ : LazyMeter)) = _
  rw [← howed] at hsmall ⊢
  unfold chargeRentOrDelete at h
  rw [hzone, if_neg Bool.false_ne_true, if_neg (by rw [hflat]; decide)] at h
  dsimp only at h
  generalize computeOwedRent sc.size f.files.feeFileRent sc.lastRentUs env.now = owed at *
  by_cases hzero : owed = 0
  · rw [if_pos hzero] at h
    obtain ⟨hsc, rfl⟩ := Prod.mk.inj h
    obtain rfl := Option.some.inj hsc
    exact ⟨0, by simp, fun total => by simp [hzero]⟩
  · rw [if_neg hzero] at h
    have hcast := asInt64_of_lt hsmall
    have hnat : owed.toNat ≠ 0 := fun hnat => hzero (UInt64.toNat_inj.mp hnat)
    unfold debitProgramAccountSync at h
    have hnonneg : 0 ≤ asInt64 owed := by omega
    rcases f.accounts.debitProgramAccount_cases sc.programPubkey hnonneg (by omega) with
      ⟨bal, hdebit⟩ | ⟨bal, a', hdebit, htook⟩
    · rw [hdebit] at h
      exact absurd (Prod.mk.inj h).1 (by simp)
    · rw [hdebit] at h
      obtain ⟨hsc, rfl⟩ := Prod.mk.inj h
      obtain rfl := Option.some.inj hsc
      refine ⟨owed.toNat, ?_, fun total => if_neg hnat⟩
      have hbalance := htook.balance (getHashPrefix sc.programPubkey)
      rw [if_pos rfl, hcast, Int.toNat_natCast] at hbalance
      change f.accounts.balance _ - a'.balance _ = _
      omega

end FileServer

/-- The time of the last touch. -/
def lastTouch (start : UInt64) (visits : List RentVisit) : UInt64 := (visits.map (·.env.now)).getLastD start

section run

variable {cPath sPath : List Bytes} {fee : Int}

theorem observed_rentRun {start : Nat} {t : UInt64} {sc last : Sidecar} {total : Nat} {paid : Int}
    {visits : List RentVisit} (hflat : sc.type = .flat) (hzone : isServerZone sc.name = false) (hfee : 0 < fee)
    (hfees : ∀ v ∈ visits, v.server.files.feeFileRent = fee)
    (htimes : (t :: visits.map (·.env.now)).IsChain (· ≤ ·)) (hsmall : OwedSmall fee cPath sPath sc visits)
    (hstart : Observed (sc.size.toNat * fee.toNat) usecsPerDay start t.toNat ⟨sc.lastRentUs.toNat, total⟩)
    (hrun : rentRun cPath sPath sc visits = some (last, paid)) :
    ∃ amount : Nat, paid = amount ∧
      Observed (sc.size.toNat * fee.toNat) usecsPerDay start (lastTouch t visits).toNat
        ⟨last.lastRentUs.toNat, total + amount⟩ := by
  induction visits generalizing sc t total paid with
  | nil =>
    obtain ⟨rfl, rfl⟩ := Prod.mk.inj (Option.some.inj hrun)
    exact ⟨0, rfl, hstart⟩
  | cons v rest ih =>
    rw [List.map_cons, List.isChain_cons_cons] at htimes
    obtain ⟨htouch, htimes⟩ := htimes
    obtain ⟨howed, hrest⟩ := hsmall
    have hv := hfees v List.mem_cons_self
    have htouch' : t.toNat ≤ v.env.now.toNat := UInt64.le_iff_toNat_le.mp htouch
    have hstamp : sc.lastRentUs ≤ v.env.now := UInt64.le_iff_toNat_le.mpr (hstart.seen.trans htouch')
    unfold rentRun at hrun
    rcases hcharge : v.server.chargeRentOrDelete v.env cPath sPath sc with ⟨_ | sc', f'⟩
    · rw [hcharge] at hrun
      exact nomatch hrun
    rw [hcharge] at hrun
    obtain ⟨⟨last', rest'⟩, hmore, heq⟩ := Option.map_eq_some_iff.mp hrun
    obtain ⟨rfl, rfl⟩ := Prod.mk.inj heq
    obtain ⟨amount, hamount, hobserve⟩ :=
      FileServer.chargeRent_observe hflat hzone (hv ▸ hfee) hstamp (hv ▸ howed) hcharge
    have hseen := hstart.observe htouch'
    rw [hv] at hobserve
    rw [hobserve] at hseen
    obtain ⟨-, hsc⟩ := FileServer.chargeRentOrDelete_some hcharge
    have hsize : sc'.size = sc.size := by rw [hsc]
    have htype : sc'.type = .flat := by rw [hsc]; exact hflat
    have hname : isServerZone sc'.name = false := by rw [hsc]; exact hzone
    rw [← hsize] at hseen
    obtain ⟨more, hpaid, hlast⟩ := ih htype hname (fun w hw => hfees w (List.mem_cons_of_mem v hw)) htimes
      (hrest sc' f' hcharge) hseen hmore
    refine ⟨amount + more, ?_, ?_⟩
    · rw [hamount, hpaid]
      push_cast
      rfl
    · have htouched : lastTouch t (v :: rest) = lastTouch v.env.now rest := List.getLastD_cons ..
      rw [← Nat.add_assoc, ← hsize, htouched]
      exact hlast

end run

/-- Whatever the touches, what a flat file outside the server's zone paid is at most its rent up to the last touch,
and the rent at most twice that and one. -/
theorem lazy_rent_bounds (cPath sPath : List Bytes) (sc last : Sidecar) (fee paid : Int) (visits : List RentVisit)
    (hflat : sc.type = .flat) (hzone : isServerZone sc.name = false) (hfee : 0 < fee)
    (hfees : ∀ v ∈ visits, v.server.files.feeFileRent = fee)
    (htimes : (sc.lastRentUs :: visits.map (·.env.now)).IsChain (· ≤ ·))
    (hsmall : OwedSmall fee cPath sPath sc visits) (hrun : rentRun cPath sPath sc visits = some (last, paid)) :
    paid ≤ exactRent sc.size fee sc.lastRentUs (lastTouch sc.lastRentUs visits) ∧
      (exactRent sc.size fee sc.lastRentUs (lastTouch sc.lastRentUs visits) : Int) ≤ 2 * paid + 1 := by
  have hstart : Observed (sc.size.toNat * fee.toNat) usecsPerDay sc.lastRentUs.toNat sc.lastRentUs.toNat
      ⟨sc.lastRentUs.toNat, 0⟩ := observed_start (by decide)
  obtain ⟨amount, rfl, hlast⟩ := observed_rentRun hflat hzone hfee hfees htimes hsmall hstart hrun
  obtain ⟨hupper, hlower⟩ := hlast.bounds
  change 0 + amount ≤ exactRent sc.size fee sc.lastRentUs (lastTouch sc.lastRentUs visits) at hupper
  change exactRent sc.size fee sc.lastRentUs (lastTouch sc.lastRentUs visits) ≤ 2 * (0 + amount) at hlower
  generalize exactRent sc.size fee sc.lastRentUs (lastTouch sc.lastRentUs visits) = rent at hupper hlower ⊢
  omega

/-! ### A file that is touched after a day and a half -/

/-- The clock `us` microseconds after the file's creation. -/
def afterUs (us : UInt64) : CallEnv := { quietEnv with now := 1000 + us }

/-- Two touches, half a day and two days after the creation. -/
def twoTouches : List RentVisit :=
  [⟨ownFileServer, afterUs 43200000000⟩, ⟨ownFileServer, afterUs 172800000000⟩]

/-- The first touch takes nothing, the second two days' rent. -/
theorem lazy_rent_bounds_two_touches :
    rentRun [] [] programSidecar twoTouches = some ({ programSidecar with lastRentUs := 172800001000 }, 2) ∧
      (2 : Int) ≤ exactRent 1 1 1000 (lastTouch 1000 twoTouches) ∧
      (exactRent 1 1 1000 (lastTouch 1000 twoTouches) : Int) ≤ 2 * 2 + 1 := by
  have hrun : rentRun [] [] programSidecar twoTouches =
      some ({ programSidecar with lastRentUs := 172800001000 }, 2) := by decide +kernel
  refine ⟨hrun, lazy_rent_bounds [] [] programSidecar _ 1 2 twoTouches rfl (by decide) (by decide) ?_ ?_ ?_ hrun⟩
  · decide
  · decide
  · refine ⟨by decide +kernel, fun sc' f' h => ⟨?_, fun _ _ _ => trivial⟩⟩
    have hfirst : (ownFileServer.chargeRentOrDelete (afterUs 43200000000) [] [] programSidecar).1 =
        some programSidecar := by decide +kernel
    rw [h] at hfirst
    rw [Option.some.inj hfirst]
    decide +kernel

/-- A file of the server's zone pays nothing for two days. And a WRITE that is refused takes a day's rent and
forgets that it did: the next one takes it again. -/
theorem rent_lost_and_doubled :
    rentRun [] [] { programSidecar with name := ascii "/s/a" } twoTouches =
        some ({ programSidecar with name := ascii "/s/a" }, 0) ∧
      exactRent 1 1 1000 (lastTouch 1000 twoTouches) = 2 ∧
      (let day := afterUs 86400000000
       let first := ownFileServer.writeCore day (ascii "/p/a") 0 [0] programKey .free
       let second := first.2.writeCore day (ascii "/p/a") 0 [0] programKey .free
       exactRent 1 1 1000 day.now = 1 ∧ first.1.status = .notOwner ∧ first.2.balance programKey = 4999 ∧
         second.1.status = .notOwner ∧ second.2.balance programKey = 4998) := by
  refine ⟨by decide +kernel, by decide +kernel, ?_⟩
  decide +kernel

end Ces
