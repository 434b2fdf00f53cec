import Ces.Vm.Gas
import Ces.Vm.Writes

/-!
# Refills

`SYS_REFILL` grows the budget of a run by what the host grants. The host grants no more than its ceiling over a
whole run (`refilled_run`), counting in `refilledTotal` what it has granted.
-/

namespace Ces

open Ces.Lib

namespace VmHost

variable {h h' : VmHost}

/-- Under the flag of a value call no gas is granted. -/
theorem Writes.refilledTotal (hw : Writes true h h') :
    h'.refilledTotal = h.refilledTotal ∧ h'.refillCeiling = h.refillCeiling := by
  induction hw with
  | refl => exact ⟨rfl, rfl⟩
  | tail _ hlast ih =>
    cases hlast with
    | _ => exact ih

theorem Sent.refilledTotal (hs : Sent h h') :
    h'.refilledTotal = h.refilledTotal ∧ h'.refillCeiling = h.refillCeiling := by
  rw [hs.host]
  exact ⟨rfl, rfl⟩

/-- A refill stays below the ceiling. -/
theorem refilledTotal_refillGas (requested : UInt64) (hle : h.refilledTotal ≤ h.refillCeiling) :
    (h.refillGas requested).2.refilledTotal.toNat = h.refilledTotal.toNat + (h.refillGas requested).1.toNat ∧
      (h.refillGas requested).2.refilledTotal ≤ (h.refillGas requested).2.refillCeiling ∧
      (h.refillGas requested).2.refillCeiling = h.refillCeiling := by
  unfold refillGas
  by_cases hzero : h.refillCeiling = 0
  · rw [if_pos hzero]
    exact ⟨rfl, hle, rfl⟩
  · rw [if_neg hzero]
    dsimp only
    generalize hroom : (if h.refilledTotal < h.refillCeiling then h.refillCeiling - h.refilledTotal else 0) = room
    generalize (if asInt64 h.refilledTotal < h.server.accounts.balance h.caller then
      asUInt64 (h.server.accounts.balance h.caller) - h.refilledTotal else 0) = avail
    have hroom' : room.toNat ≤ h.refillCeiling.toNat - h.refilledTotal.toNat := by
      rw [← hroom]
      split_ifs
      · rw [UInt64.toNat_sub_of_le _ _ hle]
      · exact Nat.zero_le _
    have hgranted : (min (min requested room) avail).toNat ≤ room.toNat := by
      rw [toNat_min_uint64, toNat_min_uint64]
      omega
    have hle' := UInt64.le_iff_toNat_le.mp hle
    have hbound := h.refillCeiling.toNat_lt
    have hsum : (h.refilledTotal + min (min requested room) avail).toNat =
        h.refilledTotal.toNat + (min (min requested room) avail).toNat := by
      rw [UInt64.toNat_add]
      exact Nat.mod_eq_of_lt (by omega)
    refine ⟨hsum, ?_, rfl⟩
    rw [UInt64.le_iff_toNat_le, hsum]
    omega

theorem refilledTotal_of_not_refills {c : HostCall} (hc : c.refills ≠ true) :
    (handle c h).2.refilledTotal = h.refilledTotal ∧ (handle c h).2.refillCeiling = h.refillCeiling := by
  rcases handle_writes (v := true) c h (fun _ => rfl) (fun h => absurd h hc) with ⟨-, hwrites⟩ | ⟨-, -, hsent⟩
  · exact hwrites.refilledTotal
  · exact hsent.refilledTotal

/-- A call adds to the total what it grants. -/
theorem refilledTotal_handle (c : HostCall) (hle : h.refilledTotal ≤ h.refillCeiling) :
    (handle c h).2.refilledTotal.toNat = h.refilledTotal.toNat + c.grant (handle c h).1 ∧
      (handle c h).2.refilledTotal ≤ (handle c h).2.refillCeiling ∧
      (handle c h).2.refillCeiling = h.refillCeiling := by
  by_cases hrefill : c.refills = true
  · cases c with
    | refillGas requested => exact refilledTotal_refillGas requested hle
    | _ => exact nomatch hrefill
  · have hsame := @refilledTotal_of_not_refills h c hrefill
    have hgrant : c.grant (handle c h).1 = 0 := by
      cases c with
      | refillGas requested => exact absurd rfl hrefill
      | _ => rfl
    rw [hsame.1, hsame.2, hgrant]
    exact ⟨rfl, hle, rfl⟩

/-- Over a run the total grows by all that was granted, and stays below the ceiling. -/
theorem refilled_run {A : Type} (prog : Program HostCall HostReply A) (hle : h.refilledTotal ≤ h.refillCeiling) :
    (prog.run handle h).2.refilledTotal.toNat = h.refilledTotal.toNat + prog.spent HostCall.grant handle h ∧
      (prog.run handle h).2.refilledTotal ≤ h.refillCeiling := by
  induction prog generalizing h with
  | done a => exact ⟨rfl, hle⟩
  | call c next ih =>
    obtain ⟨htotal, hbelow, hceiling⟩ := refilledTotal_handle c hle
    obtain ⟨hrun, hlast⟩ := ih _ hbelow
    rw [hceiling] at hlast
    refine ⟨?_, hlast⟩
    change ((next (handle c h).1).run handle (handle c h).2).2.refilledTotal.toNat = h.refilledTotal.toNat +
      (c.grant (handle c h).1 + (next (handle c h).1).spent HostCall.grant handle (handle c h).2)
    rw [hrun, htotal, Nat.add_assoc]

/-- A run of a new host is granted no more than its ceiling. -/
theorem spent_grant_le {A : Type} (prog : Program HostCall HostReply A) (s : CesServer) (req : VmRunRequest) :
    prog.spent HostCall.grant handle (VmHost.ofRequest s req) ≤ req.refillCeiling.toNat := by
  have hle : (VmHost.ofRequest s req).refilledTotal ≤ (VmHost.ofRequest s req).refillCeiling := UInt64.zero_le
  obtain ⟨htotal, hbelow⟩ := refilled_run prog hle
  have hbelow' := UInt64.le_iff_toNat_le.mp hbelow
  change _ ≤ req.refillCeiling.toNat at hbelow'
  omega

end VmHost

end Ces
