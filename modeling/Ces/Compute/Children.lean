import Mathlib.Data.List.Nodup
import Mathlib.Logic.Function.Basic
import Ces.Lib.Trace

/-!
# Child processes

A launch forks a child and waits for it to connect back; an instance keeps the process number of its child and uses
it to signal and to reap it. The operating system hands numbers out and reuses the ones of processes that were
reaped; between two actions of the handler, and between the reaping and the killing of a supervisor tick, children
exit and other processes come and go.

`Inv` ties the two together: every child in the process table belongs to one launch or instance, and what a launch
or an instance keeps is the number of its child, or a free one if the tick has just reaped it. So a signal meets the
child it is meant for. It is kept by every action that does not signal by the wrong number: a failed adoption of the
listening socket passes the instance id for a process number, and a number that the tick has freed can be taken
before the tick signals it. The server joins the thread of the handler before it calls `stop`, and `stop` kills
instances only: a child whose launch is awaited then is forgotten.
-/

namespace Ces.Children

open Ces.Lib

/-- `pid_t`. -/
abbrev Pid := Int

/-- A child of the server, by the id of its instance, or any other process. A child that exited stays until it is
reaped. -/
inductive Proc where
  | child (id : Nat) (exited : Bool)
  | other
  deriving DecidableEq

/-- The process table, and what was done to it: the children that were signalled and that were reaped, and the other
processes that were signalled. -/
structure Os where
  procs : Pid → Option Proc
  signalled : List Nat := []
  reaped : List Nat := []
  strays : List Pid := []

namespace Os

variable (os : Os)

/-- `kill(pid, SIGKILL)` -/
def kill (pid : Pid) : Os :=
  match os.procs pid with
  | none => os
  | some (.child id _) => { os with signalled := id :: os.signalled }
  | some .other => { os with strays := pid :: os.strays }

/-- `waitpid(pid, WNOHANG)`, tried for a while: `gone` says that a child that was running is dead by then. -/
def wait (gone : Bool) (pid : Pid) : Os :=
  match os.procs pid with
  | some (.child id exited) =>
    if exited || gone then { os with procs := Function.update os.procs pid none, reaped := id :: os.reaped } else os
  | _ => os

def killAndReap (gone : Bool) (pid : Pid) : Os := if pid ≤ 0 then os else (os.kill pid).wait gone pid

end Os

/-- `instances` and `launching` hold the process number of each child, `toKill` the rest of a tick. `spawned` and
`registered` keep the ids a child was forked for, and those that ever got into `instances_`. -/
structure ComputeHandler where
  os : Os
  nextPid : Nat := 1
  instances : List (Nat × Pid) := []
  launching : List (Nat × Pid) := []
  stopped : Bool := false
  toKill : List Nat := []
  spawned : List Nat := []
  registered : List Nat := []

/-- What the system answers to a launch. -/
structure Launch where
  listens : Bool
  readsSource : Bool
  forks : Option Pid
  assigns : Bool
  gone : Bool

/-- A 64-bit id as a `pid_t`. -/
def asPid (id : Nat) : Pid := Int.bmod id 4294967296

/-- How the wait for the child ends. -/
inductive Accept where
  | timedOut
  | failed
  | connected
  deriving DecidableEq

/-- What a tick makes of an instance's bill: nothing is due, it cannot be paid, or it is paid. -/
inductive Charge where
  | free
  | unpaid
  | paid
  deriving DecidableEq

namespace ComputeHandler

variable (H : ComputeHandler)

def allocateAndSpawnInstance (l : Launch) : ComputeHandler :=
  let pid := H.nextPid
  let H := { H with nextPid := pid + 1 }
  if !l.listens then H
  else if !l.readsSource then H
  else
    match l.forks with
    | none => H
    | some ospid =>
      let H :=
        { H with
          os := { H.os with procs := Function.update H.os.procs ospid (some (.child pid false)) }
          spawned := pid :: H.spawned }
      -- the id of the instance is passed where its process number is meant
      if !l.assigns then { H with os := H.os.killAndReap l.gone (asPid pid) }
      else { H with launching := (pid, ospid) :: H.launching }

/-- The timer or the accept of a launch, whichever comes first. -/
def finishLaunch (a : Accept) (gone : Bool) (id : Nat) : ComputeHandler :=
  match H.launching.lookup id with
  | none => H
  | some ospid =>
    let H := { H with launching := H.launching.filter fun e => e.1 ≠ id }
    if a = .connected ∧ ¬ H.stopped then
      { H with instances := (id, ospid) :: H.instances, registered := id :: H.registered }
    else { H with os := H.os.killAndReap gone ospid }

def killByPid (gone : Bool) (id : Nat) : ComputeHandler :=
  match H.instances.lookup id with
  | none => H
  | some ospid =>
    { H with os := H.os.killAndReap gone ospid, instances := H.instances.filter fun e => e.1 ≠ id }

/-- One turn of the loop of a tick. -/
def bill (charge : Charge) (e : Nat × Pid) : ComputeHandler :=
  if charge = .free then H
  else
    let H := if charge = .unpaid then { H with toKill := H.toKill ++ [e.1] } else H
    match H.os.procs e.2 with
    | some (.child _ true) => { H with os := H.os.wait false e.2, toKill := H.toKill ++ [e.1] }
    | _ => H

/-- The loop of a tick; the instances to kill come after it. -/
def supervisorTick (charge : Nat → Charge) : ComputeHandler := H.instances.foldl (fun H e => H.bill (charge e.1) e) H

/-- The next of the instances a tick kills. -/
def tickKill (gone : Bool) : ComputeHandler :=
  match H.toKill with
  | [] => H
  | id :: rest => { H with toKill := rest }.killByPid gone id

def stop (gone : Nat → Bool) : ComputeHandler :=
  (H.instances.map Prod.fst).foldl (fun H id => H.killByPid (gone id) id) { H with stopped := true }

end ComputeHandler

/-! ### Runs -/

/-- What the handler does, and what happens around it. -/
inductive Event where
  | launch (l : Launch)
  | accept (id : Nat) (a : Accept) (gone : Bool)
  | kill (id : Nat) (gone : Bool)
  | tick (charge : Nat → Charge)
  | tickKill (gone : Bool)
  | stop (gone : Nat → Bool)
  | exits (pid : Pid)
  | starts (pid : Pid)
  | ends (pid : Pid)

namespace Event

def setProc (H : ComputeHandler) (pid : Pid) (p : Option Proc) : ComputeHandler :=
  { H with os := { H.os with procs := Function.update H.os.procs pid p } }

def exitChild (H : ComputeHandler) (pid : Pid) : ComputeHandler :=
  match H.os.procs pid with
  | some (.child id _) => setProc H pid (some (.child id true))
  | _ => H

def act : Event → ComputeHandler → ComputeHandler
  | launch l, H => H.allocateAndSpawnInstance l
  | accept id a gone, H => H.finishLaunch a gone id
  | kill id gone, H => H.killByPid gone id
  | tick charge, H => H.supervisorTick charge
  | tickKill gone, H => H.tickKill gone
  | stop gone, H => H.stop gone
  | exits pid, H => exitChild H pid
  | starts pid, H => setProc H pid (some .other)
  | ends pid, H => setProc H pid none

/-- The handler does one thing after the other, and nothing once it is stopped; a new process gets a free number. -/
def can : Event → ComputeHandler → Prop
  | launch l, H => H.stopped = false ∧ H.toKill = [] ∧ ∀ p, l.forks = some p → 0 < p ∧ H.os.procs p = none
  | accept _ _ _, H => H.stopped = false ∧ H.toKill = []
  | kill _ _, H => H.stopped = false ∧ H.toKill = []
  | tick _, H => H.stopped = false ∧ H.toKill = []
  | tickKill _, H => H.stopped = false ∧ H.toKill ≠ []
  | stop _, H => H.stopped = false ∧ H.toKill = []
  | exits _, _ => True
  | starts pid, H => 0 < pid ∧ H.os.procs pid = none
  | ends pid, H => H.os.procs pid = some .other

/-- The acceptor adopts the socket, a killed child is dead before the tries run out, no launch is awaited when the
handler is stopped, and no process takes a number of an instance that the tick is about to kill. -/
def ok : Event → ComputeHandler → Prop
  | launch l, _ => l.assigns = true
  | accept _ _ gone, _ => gone = true
  | kill _ gone, _ => gone = true
  | tickKill gone, _ => gone = true
  | stop gone, H => H.launching = [] ∧ ∀ id, gone id = true
  | starts pid, H => ∀ id ∈ H.toKill, (id, pid) ∉ H.instances
  | _, _ => True

end Event

/-- No process but a child was signalled, and every child belongs to a launch that is still waiting, with a handler
that is not stopped, or its launch registered it, or it was signalled and reaped. -/
structure Safe (H : ComputeHandler) : Prop where
  noStray : H.os.strays = []
  fate : ∀ id ∈ H.spawned, (H.stopped = false ∧ id ∈ H.launching.map Prod.fst) ∨ id ∈ H.registered ∨
    (id ∈ H.os.signalled ∧ id ∈ H.os.reaped)

/-! ### The invariant -/

structure Inv (H : ComputeHandler) : Prop extends Safe H where
  ids : ∀ e ∈ H.instances ++ H.launching, e.1 < H.nextPid
  nodup : ((H.instances ++ H.launching).map Prod.fst).Nodup
  owned : ∀ p id b, H.os.procs p = some (.child id b) → (id, p) ∈ H.instances ++ H.launching
  listed : ∀ e ∈ H.instances, e.1 ∈ H.registered
  launched : ∀ e ∈ H.launching, 0 < e.2 ∧ ∃ b, H.os.procs e.2 = some (.child e.1 b)
  running : ∀ e ∈ H.instances, 0 < e.2 ∧
    ((∃ b, H.os.procs e.2 = some (.child e.1 b)) ∨ e.1 ∈ H.toKill ∧ H.os.procs e.2 = none)

section

variable {H : ComputeHandler} {id : Nat} {p : Pid}

/-- Killing by a number that is the child's, or nobody's. -/
theorem killAndReap_own {os : Os} (hpos : 0 < p) (hown : (∃ b, os.procs p = some (.child id b)) ∨ os.procs p = none) :
    ∃ sig rep, os.killAndReap true p =
        { os with
          procs := Function.update os.procs p none, signalled := sig ++ os.signalled, reaped := rep ++ os.reaped } ∧
      ((∃ b, os.procs p = some (.child id b)) → id ∈ sig ∧ id ∈ rep) := by
  have hnot : ¬ p ≤ 0 := Int.not_le.mpr hpos
  rcases hown with ⟨b, hchild⟩ | hfree
  · refine ⟨[id], [id], ?_, fun _ => ⟨List.mem_singleton_self id, List.mem_singleton_self id⟩⟩
    have hkill : os.kill p = { os with signalled := id :: os.signalled } := by
      unfold Os.kill
      rw [hchild]
    unfold Os.killAndReap Os.wait
    rw [if_neg hnot, hkill]
    dsimp only
    rw [hchild]
    simp
  · refine ⟨[], [], ?_, fun ⟨b, hchild⟩ => ?_⟩
    · have hkill : os.kill p = os := by
        unfold Os.kill
        rw [hfree]
      have hsame : Function.update os.procs p none = os.procs := by rw [← hfree, Function.update_eq_self]
      unfold Os.killAndReap Os.wait
      rw [if_neg hnot, hkill, hfree, hsame]
      rfl
    · rw [hfree] at hchild
      cases hchild

/-- An id stands for one number. -/
theorem eq_of_mem {l : List (Nat × Pid)} (h : (l.map Prod.fst).Nodup) {q : Pid} (hp : (id, p) ∈ l)
    (hq : (id, q) ∈ l) : p = q :=
  congrArg Prod.snd (List.inj_on_of_nodup_map h hp hq rfl)

theorem mem_of_lookup {l : List (Nat × Pid)} (h : l.lookup id = some p) : (id, p) ∈ l := by
  induction l with
  | nil => simp at h
  | cons e l ih =>
    obtain ⟨k, q⟩ := e
    rw [List.lookup_cons] at h
    split at h
    · rename_i hkey
      rw [eq_of_beq hkey, Option.some.inj h]
      exact List.mem_cons_self
    · exact List.mem_cons_of_mem _ (ih h)

namespace Inv

/-- What an entry keeps is the number of its child, or nobody's. -/
theorem own (h : Inv H) (he : (id, p) ∈ H.instances ++ H.launching) :
    0 < p ∧ ((∃ b, H.os.procs p = some (.child id b)) ∨ H.os.procs p = none) := by
  rcases List.mem_append.mp he with he | he
  · obtain ⟨hpos, hrun⟩ := h.running _ he
    exact ⟨hpos, hrun.imp_right And.right⟩
  · obtain ⟨hpos, hrun⟩ := h.launched _ he
    exact ⟨hpos, .inl hrun⟩

/-- The entry of an id goes, with the process that had its number. -/
theorem remove (h : Inv H) (he : (id, p) ∈ H.instances ++ H.launching) {os : Os} {I L : List (Nat × Pid)}
    {kills : List Nat} (hI : I = H.instances.filter fun e => e.1 ≠ id) (hL : L = H.launching.filter fun e => e.1 ≠ id)
    (hprocs : os.procs = Function.update H.os.procs p none) (hstrays : os.strays = H.os.strays)
    (hsig : ∀ i ∈ H.os.signalled, i ∈ os.signalled) (hrep : ∀ i ∈ H.os.reaped, i ∈ os.reaped)
    (hkills : ∀ i ∈ H.toKill, i ≠ id → i ∈ kills)
    (hfate : id ∈ H.registered ∨ id ∈ os.signalled ∧ id ∈ os.reaped) :
    Inv { H with os := os, instances := I, launching := L, toKill := kills } := by
  have hfilter : I ++ L = (H.instances ++ H.launching).filter fun e => e.1 ≠ id := by rw [hI, hL, List.filter_append]
  have hmem : ∀ {e}, e ∈ I ++ L ↔ e ∈ H.instances ++ H.launching ∧ e.1 ≠ id := by
    intro e
    rw [hfilter, List.mem_filter]
    simp
  have hmemI : ∀ {e}, e ∈ I ↔ e ∈ H.instances ∧ e.1 ≠ id := by
    intro e
    rw [hI, List.mem_filter]
    simp
  have hmemL : ∀ {e}, e ∈ L ↔ e ∈ H.launching ∧ e.1 ≠ id := by
    intro e
    rw [hL, List.mem_filter]
    simp
  -- a child of another id has another number
  have hother : ∀ {i : Nat} {q : Pid} {b : Bool}, i ≠ id → H.os.procs q = some (.child i b) →
      os.procs q = some (.child i b) := by
    intro i q b hi hq
    have hne : q ≠ p := by
      rintro rfl
      rcases (h.own he).2 with ⟨c, hc⟩ | hnone
      · rw [hq] at hc
        cases hc
        exact hi rfl
      · rw [hq] at hnone
        cases hnone
    rw [hprocs, Function.update_of_ne hne, hq]
  refine ⟨⟨by rw [hstrays, h.noStray], fun i hi => ?_⟩, fun e he' => h.ids e (hmem.mp he').1, ?_, fun q i b hq => ?_,
    fun e he' => h.listed e (hmemI.mp he').1, fun e he' => ?_, fun e he' => ?_⟩
  · by_cases hid : i = id
    · rw [hid]
      exact .inr hfate
    · rcases h.fate i hi with ⟨hrunning, hl⟩ | hr | ⟨hs, hr⟩
      · obtain ⟨e, he', rfl⟩ := List.mem_map.mp hl
        exact .inl ⟨hrunning, List.mem_map_of_mem (hmemL.mpr ⟨he', hid⟩)⟩
      · exact .inr (.inl hr)
      · exact .inr (.inr ⟨hsig i hs, hrep i hr⟩)
  · rw [hfilter]
    exact h.nodup.sublist (List.Sublist.map _ List.filter_sublist)
  · change os.procs q = _ at hq
    rw [hprocs] at hq
    by_cases hqp : q = p
    · rw [hqp, Function.update_self] at hq
      cases hq
    · rw [Function.update_of_ne hqp] at hq
      have hin := h.owned q i b hq
      refine hmem.mpr ⟨hin, ?_⟩
      rintro rfl
      exact hqp (eq_of_mem h.nodup hin he)
  · obtain ⟨hold, hne⟩ := hmemL.mp he'
    obtain ⟨hpos, b, hb⟩ := h.launched e hold
    exact ⟨hpos, b, hother hne hb⟩
  · obtain ⟨hold, hne⟩ := hmemI.mp he'
    obtain ⟨hpos, ⟨b, hb⟩ | ⟨hkill, hnone⟩⟩ := h.running e hold
    · exact ⟨hpos, .inl ⟨b, hother hne hb⟩⟩
    · refine ⟨hpos, .inr ⟨hkills _ hkill hne, ?_⟩⟩
      change os.procs e.2 = none
      rw [hprocs]
      by_cases hqp : e.2 = p
      · rw [hqp, Function.update_self]
      · rw [Function.update_of_ne hqp, hnone]

theorem filter_ne_of_nodup {I L : List (Nat × Pid)} (h : ((I ++ L).map Prod.fst).Nodup) :
    ((id, p) ∈ I → L.filter (fun e => e.1 ≠ id) = L) ∧ ((id, p) ∈ L → I.filter (fun e => e.1 ≠ id) = I) := by
  rw [List.map_append, List.nodup_append] at h
  refine ⟨fun hI => List.filter_eq_self.mpr fun e he => ?_, fun hL => List.filter_eq_self.mpr fun e he => ?_⟩
  · have hne := h.2.2 id (List.mem_map_of_mem hI) e.1 (List.mem_map_of_mem he)
    simpa using Ne.symm hne
  · have hne := h.2.2 e.1 (List.mem_map_of_mem he) id (List.mem_map_of_mem hL)
    simpa using hne

theorem kills {H : ComputeHandler} (h : Inv H) {id : Nat} {kills : List Nat}
    (hkills : ∀ i ∈ H.toKill, i ≠ id → i ∈ kills) :
    Inv ({ H with toKill := kills }.killByPid true id) := by
  unfold ComputeHandler.killByPid
  dsimp only
  cases hl : H.instances.lookup id with
  | none =>
    refine { h with running := fun e he => ?_ }
    obtain ⟨hpos, hrun | ⟨hkill, hnone⟩⟩ := h.running e he
    · exact ⟨hpos, .inl hrun⟩
    · refine ⟨hpos, .inr ⟨hkills _ hkill ?_, hnone⟩⟩
      rintro rfl
      have hsome : (H.instances.lookup e.1).isSome := List.lookup_isSome_iff.mpr ⟨e, he, beq_self_eq_true e.1⟩
      rw [hl] at hsome
      cases hsome
  | some ospid =>
    have hin := mem_of_lookup hl
    have he : (id, ospid) ∈ H.instances ++ H.launching := List.mem_append_left _ hin
    obtain ⟨hpos, hown⟩ := h.own he
    obtain ⟨sig, rep, hdone, -⟩ := killAndReap_own hpos hown
    dsimp only
    rw [hdone]
    refine h.remove he rfl ((filter_ne_of_nodup h.nodup).1 hin).symm rfl rfl ?_ ?_ hkills (.inl (h.listed _ hin))
    · exact fun i hi => List.mem_append_right _ hi
    · exact fun i hi => List.mem_append_right _ hi

/-- A launch that waits becomes an instance. -/
theorem register (h : Inv H) (hin : (id, p) ∈ H.launching) :
    Inv { H with
      instances := (id, p) :: H.instances, launching := H.launching.filter (fun e => e.1 ≠ id),
      registered := id :: H.registered } := by
  have he : (id, p) ∈ H.instances ++ H.launching := List.mem_append_right _ hin
  obtain ⟨hpos, b, hchild⟩ := h.launched _ hin
  have hmem : ∀ {e : Nat × Pid}, e ∈ (id, p) :: H.instances ++ H.launching.filter (fun e => e.1 ≠ id) ↔
      e ∈ H.instances ++ H.launching := by
    intro e
    simp only [List.cons_append, List.mem_cons, List.mem_append, List.mem_filter, decide_eq_true_eq]
    constructor
    · rintro (rfl | hI | ⟨hL, -⟩)
      exacts [.inr hin, .inl hI, .inr hL]
    · rintro (hI | hL)
      · exact .inr (.inl hI)
      · by_cases hid : e.1 = id
        · left
          have hsnd : e.2 = p := eq_of_mem (p := e.2) h.nodup (List.mem_append_right _ (hid ▸ hL)) he
          exact Prod.ext hid hsnd
        · exact .inr (.inr ⟨hL, hid⟩)
  refine ⟨⟨h.noStray, fun i hi => ?_⟩, fun e he' => h.ids e (hmem.mp he'), ?_,
    fun q i c hq => hmem.mpr (h.owned q i c hq),
    fun e he' => ?_, fun e he' => h.launched e (List.mem_filter.mp he').1, fun e he' => ?_⟩
  · rcases h.fate i hi with ⟨hrunning, hlaunch⟩ | hr | hdone
    · by_cases hid : i = id
      · exact .inr (.inl (hid ▸ List.mem_cons_self))
      · obtain ⟨e, he', rfl⟩ := List.mem_map.mp hlaunch
        exact .inl ⟨hrunning, List.mem_map_of_mem (List.mem_filter.mpr ⟨he', by simpa using hid⟩)⟩
    · exact .inr (.inl (List.mem_cons_of_mem _ hr))
    · exact .inr (.inr hdone)
  · have hnodup := h.nodup
    rw [List.map_append, List.nodup_append] at hnodup
    simp only [List.cons_append, List.map_cons, List.map_append, List.nodup_cons, List.nodup_append]
    refine ⟨?_, hnodup.1, hnodup.2.1.sublist (List.filter_sublist.map _), fun i hi j hj => ?_⟩
    · rw [List.mem_append]
      rintro (hI | hL)
      · exact hnodup.2.2 id hI id (List.mem_map_of_mem hin) rfl
      · obtain ⟨e, he', heq⟩ := List.mem_map.mp hL
        exact absurd heq (by simpa using (List.mem_filter.mp he').2)
    · exact hnodup.2.2 i hi j ((List.filter_sublist.map _).subset hj)
  · rcases List.mem_cons.mp he' with rfl | he'
    · exact List.mem_cons_self
    · exact List.mem_cons_of_mem _ (h.listed e he')
  · rcases List.mem_cons.mp he' with rfl | he'
    · exact ⟨hpos, .inl ⟨b, hchild⟩⟩
    · exact h.running e he'

/-- A launch that waits is settled. -/
theorem finish (h : Inv H) (a : Accept) : Inv (H.finishLaunch a true id) := by
  unfold ComputeHandler.finishLaunch
  cases hl : H.launching.lookup id with
  | none => exact h
  | some ospid =>
    have hin := mem_of_lookup hl
    have he : (id, ospid) ∈ H.instances ++ H.launching := List.mem_append_right _ hin
    obtain ⟨hpos, b, hchild⟩ := h.launched _ hin
    dsimp only
    split_ifs with hconnected
    · exact h.register hin
    · obtain ⟨sig, rep, hdone, hboth⟩ := killAndReap_own hpos (.inl ⟨b, hchild⟩)
      rw [hdone]
      have hmine := hboth ⟨b, hchild⟩
      refine h.remove he ((filter_ne_of_nodup h.nodup).2 hin).symm rfl rfl rfl ?_ ?_ (fun i hi _ => hi) (.inr ⟨?_, ?_⟩)
      · exact fun i hi => List.mem_append_right _ hi
      · exact fun i hi => List.mem_append_right _ hi
      · exact List.mem_append_left _ hmine.1
      · exact List.mem_append_left _ hmine.2

/-- A number that no entry keeps changes hands. -/
theorem setProc (h : Inv H) {x : Option Proc} (hfree : ∀ e ∈ H.instances ++ H.launching, e.2 ≠ p)
    (hx : ∀ i b, x ≠ some (.child i b)) : Inv (Event.setProc H p x) := by
  have hkeep : ∀ e ∈ H.instances ++ H.launching, Function.update H.os.procs p x e.2 = H.os.procs e.2 :=
    fun e he => Function.update_of_ne (hfree e he) _ _
  refine ⟨⟨h.noStray, h.fate⟩, h.ids, h.nodup, fun q i b hq => ?_, h.listed, fun e he => ?_, fun e he => ?_⟩
  · change Function.update H.os.procs p x q = _ at hq
    by_cases hqp : q = p
    · rw [hqp, Function.update_self] at hq
      exact absurd hq (hx i b)
    · rw [Function.update_of_ne hqp] at hq
      exact h.owned q i b hq
  · change _ ∧ ∃ b, Function.update H.os.procs p x e.2 = _
    rw [hkeep e (List.mem_append_right _ he)]
    exact h.launched e he
  · change _ ∧ ((∃ b, Function.update H.os.procs p x e.2 = _) ∨ _ ∧ Function.update H.os.procs p x e.2 = _)
    rw [hkeep e (List.mem_append_left _ he)]
    exact h.running e he

theorem exits (h : Inv H) : Inv (Event.exitChild H p) := by
  unfold Event.exitChild
  split
  · rename_i i b hchild
    have hiff : ∀ {q : Pid} {j : Nat},
        (∃ c, Function.update H.os.procs p (some (.child i true)) q = some (.child j c)) ↔
          ∃ c, H.os.procs q = some (.child j c) := by
      intro q j
      by_cases hq : q = p
      · rw [hq, Function.update_self, hchild]
        simp
      · rw [Function.update_of_ne hq]
    have hnone : ∀ {q : Pid}, H.os.procs q = none → Function.update H.os.procs p (some (.child i true)) q = none := by
      intro q hq
      rw [Function.update_of_ne, hq]
      rintro rfl
      rw [hchild] at hq
      cases hq
    refine ⟨⟨h.noStray, h.fate⟩, h.ids, h.nodup, fun q j c hq => ?_, h.listed, fun e he => ?_, fun e he => ?_⟩
    · obtain ⟨c', hc'⟩ := hiff.mp ⟨c, hq⟩
      exact h.owned q j c' hc'
    · obtain ⟨hpos, hrun⟩ := h.launched e he
      exact ⟨hpos, hiff.mpr hrun⟩
    · obtain ⟨hpos, hrun | ⟨hkill, hfree⟩⟩ := h.running e he
      · exact ⟨hpos, .inl (hiff.mpr hrun)⟩
      · exact ⟨hpos, .inr ⟨hkill, hnone hfree⟩⟩
  · exact h

/-- A launch whose socket is adopted. -/
theorem launch (h : Inv H) {l : Launch} (hcan : Event.can (.launch l) H) (hok : l.assigns = true) :
    Inv (H.allocateAndSpawnInstance l) := by
  obtain ⟨hrunning, hkills, hfree⟩ := hcan
  have hids : ∀ e ∈ H.instances ++ H.launching, e.1 < H.nextPid + 1 := fun e he => Nat.lt_succ_of_lt (h.ids e he)
  have hnext : Inv { H with nextPid := H.nextPid + 1 } := { h with ids := hids }
  unfold ComputeHandler.allocateAndSpawnInstance
  simp only [hok, Bool.not_true, Bool.false_eq_true, if_false]
  split_ifs
  · exact hnext
  · exact hnext
  cases hfork : l.forks with
  | none => exact hnext
  | some ospid =>
    obtain ⟨hpos, hfree⟩ := hfree ospid hfork
    dsimp only
    have hne : ∀ {q : Pid} {x : Proc}, H.os.procs q = some x → q ≠ ospid := by
      rintro q x hq rfl
      rw [hfree] at hq
      cases hq
    have hmem : ∀ {e : Nat × Pid}, e ∈ H.instances ++ (H.nextPid, ospid) :: H.launching ↔
        e = (H.nextPid, ospid) ∨ e ∈ H.instances ++ H.launching := by
      intro e
      simp only [List.mem_append, List.mem_cons]
      tauto
    refine ⟨⟨h.noStray, fun i hi => ?_⟩, fun e he => ?_, ?_, fun q i b hq => ?_, h.listed, fun e he => ?_,
      fun e he => ?_⟩
    · rcases List.mem_cons.mp hi with rfl | hi
      · exact .inl ⟨hrunning, List.mem_cons_self⟩
      · exact (h.fate i hi).imp_left (And.imp_right (List.mem_cons_of_mem _))
    · rcases hmem.mp he with rfl | he
      · exact Nat.lt_succ_self _
      · exact hids e he
    · have hperm : (H.instances ++ (H.nextPid, ospid) :: H.launching).Perm
          ((H.nextPid, ospid) :: (H.instances ++ H.launching)) :=
        List.perm_middle
      rw [(hperm.map Prod.fst).nodup_iff, List.map_cons, List.nodup_cons]
      refine ⟨fun hold => ?_, h.nodup⟩
      obtain ⟨e, he, heq⟩ := List.mem_map.mp hold
      exact absurd (h.ids e he) (by rw [heq]; exact Nat.lt_irrefl _)
    · change Function.update H.os.procs ospid _ q = _ at hq
      by_cases hqp : q = ospid
      · rw [hqp, Function.update_self] at hq
        cases hq
        rw [hqp]
        exact hmem.mpr (.inl rfl)
      · rw [Function.update_of_ne hqp] at hq
        exact hmem.mpr (.inr (h.owned q i b hq))
    · rcases List.mem_cons.mp he with rfl | he
      · exact ⟨hpos, false, Function.update_self _ _ _⟩
      · obtain ⟨hp, b, hb⟩ := h.launched e he
        exact ⟨hp, b, (Function.update_of_ne (hne hb) _ _).trans hb⟩
    · obtain ⟨hp, ⟨b, hb⟩ | ⟨hkill, -⟩⟩ := h.running e he
      · exact ⟨hp, .inl ⟨b, (Function.update_of_ne (hne hb) _ _).trans hb⟩⟩
      · rw [hkills] at hkill
        cases hkill

/-- More instances to kill. -/
theorem morekills (h : Inv H) (i : Nat) : Inv { H with toKill := H.toKill ++ [i] } := by
  refine { h with running := fun e he => ?_ }
  obtain ⟨hpos, hrun | ⟨hkill, hnone⟩⟩ := h.running e he
  · exact ⟨hpos, .inl hrun⟩
  · exact ⟨hpos, .inr ⟨List.mem_append_left _ hkill, hnone⟩⟩

/-- A child that exited is reaped, and its instance is to be killed. -/
theorem reaps (h : Inv H) (he : (id, p) ∈ H.instances) {i : Nat} (hzombie : H.os.procs p = some (.child i true)) :
    Inv { H with os := H.os.wait false p, toKill := H.toKill ++ [id] } := by
  have hown : i = id := by
    obtain ⟨-, ⟨b, hb⟩ | ⟨-, hnone⟩⟩ := h.running _ he
    · rw [hzombie] at hb
      cases hb
      rfl
    · rw [hzombie] at hnone
      cases hnone
  have hwait : H.os.wait false p =
      { H.os with procs := Function.update H.os.procs p none, reaped := i :: H.os.reaped } := by
    unfold Os.wait
    rw [hzombie]
    rfl
  have hnone : ∀ {q : Pid}, H.os.procs q = none → Function.update H.os.procs p none q = none := by
    intro q hq
    by_cases hqp : q = p
    · rw [hqp, Function.update_self]
    · rw [Function.update_of_ne hqp, hq]
  rw [hwait]
  refine ⟨⟨h.noStray, fun j hj => ?_⟩, h.ids, h.nodup, fun q j b hq => ?_, h.listed, fun e he' => ?_, fun e he' => ?_⟩
  · exact (h.fate j hj).imp_right (Or.imp_right (And.imp_right (List.mem_cons_of_mem _)))
  · change Function.update H.os.procs p none q = _ at hq
    by_cases hqp : q = p
    · rw [hqp, Function.update_self] at hq
      cases hq
    · rw [Function.update_of_ne hqp] at hq
      exact h.owned q j b hq
  · obtain ⟨hpos, b, hb⟩ := h.launched e he'
    refine ⟨hpos, b, (Function.update_of_ne ?_ _ _).trans hb⟩
    intro hep
    rw [hep, hzombie] at hb
    cases hb
    have hnodup := h.nodup
    rw [List.map_append, List.nodup_append] at hnodup
    exact hnodup.2.2 id (List.mem_map_of_mem he) e.1 (List.mem_map_of_mem he') hown.symm
  · obtain ⟨hpos, ⟨b, hb⟩ | ⟨hkill, hfree⟩⟩ := h.running e he'
    · by_cases hep : e.2 = p
      · rw [hep, hzombie] at hb
        cases hb
        refine ⟨hpos, .inr ⟨List.mem_append_right _ (by rw [hown]; exact List.mem_singleton_self id), ?_⟩⟩
        rw [hep]
        exact Function.update_self _ _ _
      · exact ⟨hpos, .inl ⟨b, (Function.update_of_ne hep _ _).trans hb⟩⟩
    · exact ⟨hpos, .inr ⟨List.mem_append_left _ hkill, hnone hfree⟩⟩

/-- One turn of the loop of a tick. -/
theorem bill (h : Inv H) (charge : Charge) {e : Nat × Pid} (he : e ∈ H.instances) :
    Inv (H.bill charge e) ∧ (H.bill charge e).instances = H.instances := by
  unfold ComputeHandler.bill
  split_ifs with hfree hpoor
  · exact ⟨h, rfl⟩
  · dsimp only
    split
    · rename_i i hzombie
      exact ⟨(h.morekills e.1).reaps he hzombie, rfl⟩
    · exact ⟨h.morekills e.1, rfl⟩
  · dsimp only
    split
    · rename_i i hzombie
      exact ⟨h.reaps he hzombie, rfl⟩
    · exact ⟨h, rfl⟩

theorem tick (h : Inv H) (charge : Nat → Charge) : Inv (H.supervisorTick charge) := by
  have hloop : ∀ (l : List (Nat × Pid)) (H : ComputeHandler), Inv H → (∀ e ∈ l, e ∈ H.instances) →
      Inv (l.foldl (fun H e => H.bill (charge e.1) e) H) := by
    intro l
    induction l with
    | nil => exact fun _ h _ => h
    | cons e l ih =>
      intro H h hl
      obtain ⟨hbill, hsame⟩ := h.bill (charge e.1) (hl e List.mem_cons_self)
      exact ih _ hbill fun e' he' => by rw [hsame]; exact hl e' (List.mem_cons_of_mem _ he')
  exact hloop _ H h fun _ he => he

theorem tickKill (h : Inv H) : Inv (H.tickKill true) := by
  unfold ComputeHandler.tickKill
  split
  · exact h
  · rename_i i rest hkills
    refine h.kills fun j hj hne => ?_
    rw [hkills] at hj
    exact (List.mem_cons.mp hj).resolve_left hne

theorem stop (h : Inv H) (hnone : H.launching = []) {gone : Nat → Bool} (hgone : ∀ i, gone i = true) :
    Inv (H.stop gone) := by
  have hloop : ∀ (l : List Nat) (H : ComputeHandler), Inv H → Inv (l.foldl (fun H i => H.killByPid (gone i) i) H) := by
    intro l
    induction l with
    | nil => exact fun _ h => h
    | cons i l ih =>
      intro H h
      rw [List.foldl_cons, hgone]
      exact ih _ (h.kills fun j hj _ => hj)
  -- No child is awaited, so each has met its fate already.
  refine hloop _ _ { h with fate := fun i hi => ?_ }
  rcases h.fate i hi with ⟨-, hlaunch⟩ | hdone
  · rw [hnone] at hlaunch
    cases hlaunch
  · exact .inr hdone

/-- Every step that meets the condition keeps the invariant. -/
theorem step (ev : Event) (H : ComputeHandler) (hcan : ev.can H) (hok : ev.ok H) (h : Inv H) : Inv (ev.act H) := by
  cases ev with
  | launch l => exact h.launch hcan hok
  | accept i a gone =>
    obtain rfl : gone = true := hok
    exact h.finish a
  | kill i gone =>
    obtain rfl : gone = true := hok
    exact h.kills fun j hj _ => hj
  | tick charge => exact h.tick charge
  | tickKill gone =>
    obtain rfl : gone = true := hok
    exact h.tickKill
  | stop gone => exact h.stop hok.1 hok.2
  | exits q => exact h.exits
  | starts q =>
    refine h.setProc (fun e he heq => ?_) (by simp)
    rcases List.mem_append.mp he with he | he
    · obtain ⟨-, ⟨b, hb⟩ | ⟨hkill, -⟩⟩ := h.running e he
      · rw [heq, hcan.2] at hb
        cases hb
      · exact hok e.1 hkill (heq ▸ he)
    · obtain ⟨-, b, hb⟩ := h.launched e he
      rw [heq, hcan.2] at hb
      cases hb
  | ends q =>
    have hother : H.os.procs q = some .other := hcan
    refine h.setProc (fun e he heq => ?_) (by simp)
    obtain ⟨-, ⟨b, hb⟩ | hnone⟩ := h.own he
    · rw [heq, hother] at hb
      cases hb
    · rw [heq, hother] at hnone
      cases hnone

end Inv

end

/-- A handler that starts on a system without children of its own. -/
def initial (procs : Pid → Option Proc) : ComputeHandler := { os := { procs := procs } }

theorem inv_initial {procs : Pid → Option Proc} (h : ∀ p id b, procs p ≠ some (.child id b)) : Inv (initial procs) :=
  ⟨⟨rfl, by simp [initial]⟩,
    by simp [initial], by simp [initial], fun p id b hp => absurd hp (h p id b), by simp [initial],
    by simp [initial], by simp [initial]⟩

/-- In every run whose steps all meet the condition, no process but a child is signalled, and a launch that is over
has registered its child or has signalled and reaped it. -/
theorem children_owned (procs : Pid → Option Proc) (hfresh : ∀ p id b, procs p ≠ some (.child id b)) (evs : List Event)
    (H : ComputeHandler) (hrun : Runs Event.act Event.can (initial procs) evs H)
    (hmeets : Meets Event.act Event.ok (initial procs) evs) : Safe H :=
  (hrun.invariant Inv.step hmeets (inv_initial hfresh)).toSafe

/-- The first launch connects, its child exits, the tick reaps it and kills the instance. -/
theorem one_child_owned : Safe
    (Event.act (.tickKill true) (Event.act (.tick fun _ => .paid) (Event.act (.exits 100)
      (Event.act (.accept 1 .connected true)
        (Event.act (.launch ⟨true, true, some 100, true, true⟩) (initial fun _ => none)))))) := by
  refine children_owned (fun _ => none) (by simp)
    [.launch ⟨true, true, some 100, true, true⟩, .accept 1 .connected true, .exits 100, .tick fun _ => .paid,
      .tickKill true] _ ?_ ?_
  · refine .cons ⟨rfl, rfl, ?_⟩ (.cons ⟨rfl, rfl⟩ (.cons trivial (.cons ⟨rfl, rfl⟩ (.cons ⟨rfl, ?_⟩ (.nil _)))))
    · rintro p ⟨⟩
      exact ⟨by decide, rfl⟩
    · exact List.cons_ne_nil _ _
  · exact ⟨rfl, rfl, trivial, trivial, rfl, trivial⟩

/-- A first launch whose socket the acceptor does not adopt, on a system with one process. -/
def unadopted : ComputeHandler :=
  (initial fun p => if p = 1 then some .other else none).allocateAndSpawnInstance ⟨true, true, some 100, false, true⟩

/-- A launch that is awaited when the handler is stopped. -/
def awaitedAtStop : ComputeHandler :=
  ((initial fun _ => none).allocateAndSpawnInstance ⟨true, true, some 100, true, true⟩).stop fun _ => true

/-- Process 1 is signalled, and the child is left alone. A child that is awaited when the handler is stopped is left
alone too. -/
theorem unadopted_signals_init : (unadopted.os.strays = [1] ∧ unadopted.os.procs 100 = some (.child 1 false) ∧
      unadopted.instances = [] ∧ unadopted.launching = [] ∧ ¬ Safe unadopted) ∧
    awaitedAtStop.os.procs 100 = some (.child 1 false) ∧ awaitedAtStop.registered = [] ∧ ¬ Safe awaitedAtStop := by
  have hpid : asPid 1 = 1 := by decide
  have hstray : unadopted.os.strays = [1] := by
    simp [unadopted, initial, ComputeHandler.allocateAndSpawnInstance, hpid, Os.killAndReap, Os.kill, Os.wait]
  refine ⟨⟨hstray, ?_, ?_, ?_, fun h => ?_⟩, rfl, rfl, fun h => ?_⟩
  · simp [unadopted, initial, ComputeHandler.allocateAndSpawnInstance, hpid, Os.killAndReap, Os.kill, Os.wait]
  · rfl
  · rfl
  · rw [h.noStray] at hstray
    cases hstray
  · rcases h.fate 1 List.mem_cons_self with ⟨hrunning, -⟩ | hregistered | ⟨hsignalled, -⟩
    · cases hrunning
    · cases hregistered
    · cases hsignalled

end Ces.Children
