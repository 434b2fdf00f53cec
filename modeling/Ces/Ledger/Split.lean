import Ces.Ledger.Gossip

/-!
# What a capped split comes to

`splitCapped` fills the entries like vessels: every round raises the active entries by one share, up to their caps.
The entries below their caps are level after every round (`Leveled`). A round either fills an entry or leaves less than
one credit for each active one (`round_split`), so there are at most two rounds more than entries, and the remainder is
what cannot be divided any more.
-/

namespace Ces

namespace SplitEntry

/-- What one round makes of an entry. -/
def raise (share : Nat) (e : SplitEntry) : SplitEntry :=
  if e.active then
    ⟨e.cap, e.alloc + min share (e.cap - e.alloc), e.alloc + min share (e.cap - e.alloc) < e.cap⟩
  else e

theorem cap_raise (share : Nat) (e : SplitEntry) : (e.raise share).cap = e.cap := by
  unfold raise
  split_ifs <;> rfl

/-- An entry is within its cap, is active exactly while below it, and then holds as much as every other one. -/
structure Level (level : Nat) (e : SplitEntry) : Prop where
  le : e.alloc ≤ e.cap
  active : e.active = true ↔ e.alloc < e.cap
  level : e.active = true → e.alloc = level

theorem Level.raise {level : Nat} {e : SplitEntry} (h : e.Level level) (share : Nat) :
    (e.raise share).Level (level + share) := by
  have hle := h.le
  unfold SplitEntry.raise
  cases hactive : e.active with
  | true =>
    have hlevel := h.level hactive
    rw [if_pos rfl]
    refine ⟨?_, decide_eq_true_iff, fun hbelow => ?_⟩
    · dsimp only
      omega
    · have hbelow := of_decide_eq_true hbelow
      dsimp only
      omega
  | false =>
    rw [if_neg Bool.false_ne_true]
    exact ⟨hle, h.active, fun h => absurd (hactive.symm.trans h) Bool.false_ne_true⟩

end SplitEntry

open SplitEntry

def Leveled (level : Nat) (es : List SplitEntry) : Prop := ∀ e ∈ es, e.Level level

theorem Leveled.raise {level : Nat} {es : List SplitEntry} (h : Leveled level es) (share : Nat) :
    Leveled (level + share) (es.map (SplitEntry.raise share)) := by
  intro e he
  obtain ⟨e₀, he₀, rfl⟩ := List.mem_map.mp he
  exact (h e₀ he₀).raise share

/-! ### One round -/

section round

variable (share : Nat) (es : List SplitEntry) (remaining : Nat)

theorem splitRound_fst : (splitRound share es remaining).1 = es.map (SplitEntry.raise share) := by
  induction es generalizing remaining with
  | nil => rfl
  | cons e rest ih =>
    unfold splitRound SplitEntry.raise
    cases hactive : e.active with
    | true => simp [hactive, ih, SplitEntry.raise]
    | false => simp [hactive, ih, SplitEntry.raise]

/-- A round with a share gives something to every active entry. -/
theorem splitRound_progress {level : Nat} (hlevel : Leveled level es) (hshare : 0 < share)
    (hactive : 0 < activeCount es) :
    (splitRound share es remaining).2.2 = true := by
  induction es generalizing remaining with
  | nil => exact absurd hactive (lt_irrefl 0)
  | cons e rest ih =>
    unfold splitRound
    cases hfirst : e.active with
    | true =>
      have hbelow := (hlevel e List.mem_cons_self).active.mp hfirst
      have hgives : 0 < min share (e.cap - e.alloc) := by omega
      simp [hgives]
    | false =>
      have hcount : activeCount (e :: rest) = activeCount rest := by simp [activeCount, hfirst]
      simpa using ih remaining (fun e' he' => hlevel e' (List.mem_cons_of_mem _ he')) (hcount ▸ hactive)

/-- A round fills an entry, or raises every active one by the whole share. -/
theorem round_split :
    activeCount (es.map (SplitEntry.raise share)) ≤ activeCount es ∧
      (activeCount (es.map (SplitEntry.raise share)) = activeCount es →
        totalAlloc (es.map (SplitEntry.raise share)) = totalAlloc es + share * activeCount es) := by
  induction es with
  | nil => exact ⟨le_rfl, fun _ => rfl⟩
  | cons e rest ih =>
    obtain ⟨hle, htotal⟩ := ih
    cases hactive : e.active with
    | false =>
      have hsame : e.raise share = e := by simp [SplitEntry.raise, hactive]
      have hcount : ∀ l, activeCount (e :: l) = activeCount l := fun l => by simp [activeCount, hactive]
      rw [List.map_cons, hsame, hcount, hcount]
      refine ⟨hle, fun heq => ?_⟩
      have hrest := htotal heq
      simp only [totalAlloc, List.map_cons, List.sum_cons] at hrest ⊢
      omega
    | true =>
      have hcount : activeCount (e :: rest) = activeCount rest + 1 := by simp [activeCount, hactive]
      by_cases hfull : (e.raise share).active = true
      · -- the entry is still below its cap, so it took the whole share
        have hcount' : activeCount (e.raise share :: rest.map (SplitEntry.raise share)) =
            activeCount (rest.map (SplitEntry.raise share)) + 1 := by simp [activeCount, hfull]
        have htook : (e.raise share).alloc = e.alloc + share := by
          unfold SplitEntry.raise at hfull ⊢
          rw [if_pos hactive] at hfull ⊢
          have hbelow := of_decide_eq_true hfull
          dsimp only
          omega
        rw [List.map_cons, hcount, hcount']
        refine ⟨by omega, fun heq => ?_⟩
        have hrest := htotal (by omega)
        simp only [totalAlloc, List.map_cons, List.sum_cons] at hrest ⊢
        rw [htook, Nat.mul_add, Nat.mul_one]
        omega
      · have hcount' : activeCount (e.raise share :: rest.map (SplitEntry.raise share)) =
            activeCount (rest.map (SplitEntry.raise share)) := by simp [activeCount, hfull]
        rw [List.map_cons, hcount, hcount']
        exact ⟨by omega, fun heq => by omega⟩

end round

/-! ### The loop -/

/-- The loop of the source ends here. -/
def SplitStopped (es : List SplitEntry) (remaining : Nat) : Prop :=
  remaining = 0 ∨ activeCount es = 0 ∨ remaining / activeCount es = 0

theorem splitLoop_of_stopped {es : List SplitEntry} {remaining : Nat} (h : SplitStopped es remaining) (fuel : Nat) :
    splitLoop fuel es remaining = (es, remaining) := by
  cases fuel with
  | zero => rfl
  | succ fuel =>
    unfold splitLoop
    exact if_pos h

section loop

variable {level fuel : Nat} {es : List SplitEntry} {remaining : Nat}

/-- A turn of the loop that does not stop. -/
theorem splitLoop_succ (hlevel : Leveled level es) (hgoes : ¬SplitStopped es remaining) :
    splitLoop (fuel + 1) es remaining = splitLoop fuel (es.map (SplitEntry.raise (remaining / activeCount es)))
      (splitRound (remaining / activeCount es) es remaining).2.1 := by
  obtain ⟨-, hactive, hshare⟩ : remaining ≠ 0 ∧ activeCount es ≠ 0 ∧ remaining / activeCount es ≠ 0 := by
    simpa [SplitStopped, not_or] using hgoes
  have hprogress := splitRound_progress (remaining / activeCount es) es remaining hlevel (Nat.pos_of_ne_zero hshare)
    (Nat.pos_of_ne_zero hactive)
  unfold SplitStopped at hgoes
  rw [splitLoop]
  dsimp only
  rw [if_neg hgoes, if_pos hprogress, splitRound_fst]

/-- Two rounds more than active entries are enough. -/
theorem stopped_splitLoop (hlevel : Leveled level es) (hfuel : activeCount es + 2 ≤ fuel) :
    SplitStopped (splitLoop fuel es remaining).1 (splitLoop fuel es remaining).2 := by
  induction fuel generalizing level es remaining with
  | zero => omega
  | succ fuel ih =>
    by_cases hstop : SplitStopped es remaining
    · rw [splitLoop_of_stopped hstop]
      exact hstop
    rw [splitLoop_succ hlevel hstop]
    generalize hshare : remaining / activeCount es = share
    obtain ⟨hle, htotal⟩ := round_split share es
    by_cases hsame : activeCount (es.map (SplitEntry.raise share)) = activeCount es
    · -- nothing was filled: the remainder is smaller than the number of active entries
      have hround := total_splitRound share es remaining (hshare ▸ Nat.div_mul_le_self _ _)
      rw [splitRound_fst, htotal hsame] at hround
      have hpos : 0 < activeCount es := Nat.pos_of_ne_zero fun h => hstop (.inr (.inl h))
      have hsmall : (splitRound share es remaining).2.1 < activeCount es := by
        have hmod := Nat.mod_add_div remaining (activeCount es)
        have hlt := Nat.mod_lt remaining hpos
        rw [hshare, Nat.mul_comm] at hmod
        omega
      have hdone : SplitStopped (es.map (SplitEntry.raise share)) (splitRound share es remaining).2.1 :=
        .inr (.inr (by rw [hsame]; exact Nat.div_eq_of_lt hsmall))
      rw [splitLoop_of_stopped hdone]
      exact hdone
    · exact ih (hlevel.raise share) (by omega)

/-- Once the loop has stopped, more fuel changes nothing. -/
theorem splitLoop_stable (hlevel : Leveled level es)
    (hstopped : SplitStopped (splitLoop fuel es remaining).1 (splitLoop fuel es remaining).2) (extra : Nat) :
    splitLoop (fuel + extra) es remaining = splitLoop fuel es remaining := by
  induction fuel generalizing level es remaining with
  | zero => exact splitLoop_of_stopped hstopped _
  | succ fuel ih =>
    by_cases hstop : SplitStopped es remaining
    · rw [splitLoop_of_stopped hstop, splitLoop_of_stopped hstop]
    · rw [splitLoop_succ hlevel hstop] at hstopped
      rw [Nat.succ_add, splitLoop_succ hlevel hstop, splitLoop_succ hlevel hstop]
      exact ih (hlevel.raise _) hstopped

theorem leveled_splitLoop (hlevel : Leveled level es) : ∃ level', Leveled level' (splitLoop fuel es remaining).1 := by
  induction fuel generalizing level es remaining with
  | zero => exact ⟨level, hlevel⟩
  | succ fuel ih =>
    by_cases hstop : SplitStopped es remaining
    · rw [splitLoop_of_stopped hstop]
      exact ⟨level, hlevel⟩
    · rw [splitLoop_succ hlevel hstop]
      exact ih (hlevel.raise _)

theorem caps_splitLoop (hlevel : Leveled level es) :
    (splitLoop fuel es remaining).1.map (·.cap) = es.map (·.cap) := by
  induction fuel generalizing level es remaining with
  | zero => rfl
  | succ fuel ih =>
    by_cases hstop : SplitStopped es remaining
    · rw [splitLoop_of_stopped hstop]
    · rw [splitLoop_succ hlevel hstop, ih (hlevel.raise _), List.map_map]
      exact List.map_congr_left fun e _ => cap_raise _ e

end loop

/-! ### The split -/

/-- The entries a split starts from. -/
def splitStart (caps : List Nat) : List SplitEntry := caps.map fun c => ⟨c, 0, 0 < c⟩

theorem leveled_splitStart (caps : List Nat) : Leveled 0 (splitStart caps) := by
  intro e he
  obtain ⟨c, -, rfl⟩ := List.mem_map.mp he
  exact ⟨Nat.zero_le c, decide_eq_true_iff, fun _ => rfl⟩

theorem caps_splitStart (caps : List Nat) : (splitStart caps).map (·.cap) = caps := by
  unfold splitStart
  rw [List.map_map]
  exact List.map_id _

/-- The loop ends within two rounds more than there are caps, with every allocation within its cap and the budget
divided into allocations and remainder. What remains is less than one credit for each entry below its cap, or every
entry is at its cap; and the entries below their caps received the same. -/
theorem splitCapped_fair (budget : Nat) (caps : List Nat) :
    (∀ extra, splitLoop (caps.length + 2 + extra) (splitStart caps) budget =
      splitLoop (caps.length + 2) (splitStart caps) budget) ∧
    (splitCapped budget caps).1.length = caps.length ∧
    (∀ p ∈ (splitCapped budget caps).1.zip caps, p.1 ≤ p.2) ∧
    (splitCapped budget caps).1.sum + (splitCapped budget caps).2 = budget ∧
    ((splitCapped budget caps).2 < ((splitCapped budget caps).1.zip caps).countP (fun p => p.1 < p.2) ∨
      ∀ p ∈ (splitCapped budget caps).1.zip caps, p.1 = p.2) ∧
    ∀ p ∈ (splitCapped budget caps).1.zip caps, ∀ q ∈ (splitCapped budget caps).1.zip caps,
      p.1 < p.2 → q.1 < q.2 → p.1 = q.1 := by
  have hstart := leveled_splitStart caps
  have hfuel : activeCount (splitStart caps) + 2 ≤ caps.length + 2 :=
    Nat.add_le_add_right (List.countP_le_length.trans (List.length_map _).le) 2
  have hstopped : SplitStopped (splitLoop (caps.length + 2) (splitStart caps) budget).1
      (splitLoop (caps.length + 2) (splitStart caps) budget).2 := stopped_splitLoop hstart hfuel
  have hcaps : (splitLoop (caps.length + 2) (splitStart caps) budget).1.map (·.cap) = caps :=
    (caps_splitLoop hstart).trans (caps_splitStart caps)
  obtain ⟨level, hlevel⟩ : ∃ level, Leveled level (splitLoop (caps.length + 2) (splitStart caps) budget).1 :=
    leveled_splitLoop hstart
  have htotal := total_splitLoop (caps.length + 2) (splitStart caps) budget
  have hzero : totalAlloc (splitStart caps) = 0 := by simp [totalAlloc, splitStart, Function.comp_def]
  rw [hzero, Nat.zero_add] at htotal
  refine ⟨splitLoop_stable hstart hstopped, ?_⟩
  have hsplit : splitCapped budget caps = ((splitLoop (caps.length + 2) (splitStart caps) budget).1.map (·.alloc),
      (splitLoop (caps.length + 2) (splitStart caps) budget).2) := rfl
  rw [hsplit]
  dsimp only
  generalize (splitLoop (caps.length + 2) (splitStart caps) budget).1 = es at *
  generalize (splitLoop (caps.length + 2) (splitStart caps) budget).2 = pocket at *
  have hzip : (es.map (·.alloc)).zip caps = es.map fun e => (e.alloc, e.cap) := by
    rw [← hcaps, List.zip_map']
  have hcount : (es.map fun e => (e.alloc, e.cap)).countP (fun p => p.1 < p.2) = activeCount es := by
    rw [List.countP_map]
    refine List.countP_congr fun e he => ?_
    simpa using (hlevel e he).active.symm
  rw [hzip, hcount]
  refine ⟨?_, ?_, ?_, ?_, ?_⟩
  · rw [← hcaps, List.length_map, List.length_map]
  · intro p hp
    obtain ⟨e, he, rfl⟩ := List.mem_map.mp hp
    exact (hlevel e he).le
  · exact htotal
  · by_cases hfull : activeCount es = 0
    · refine .inr fun p hp => ?_
      obtain ⟨e, he, rfl⟩ := List.mem_map.mp hp
      have hidle := List.countP_eq_zero.mp hfull e he
      exact le_antisymm (hlevel e he).le (not_lt.mp fun h => hidle ((hlevel e he).active.mpr h))
    · left
      have hpos : 0 < activeCount es := Nat.pos_of_ne_zero hfull
      rcases hstopped with hnone | hnobody | hcrumb
      · exact hnone ▸ hpos
      · exact absurd hnobody hfull
      · exact (Nat.div_eq_zero_iff_lt hpos).mp hcrumb
  · intro p hp q hq hbelow hbelow'
    obtain ⟨e, he, rfl⟩ := List.mem_map.mp hp
    obtain ⟨e', he', rfl⟩ := List.mem_map.mp hq
    exact ((hlevel e he).level ((hlevel e he).active.mpr hbelow)).trans
      ((hlevel e' he').level ((hlevel e' he').active.mpr hbelow')).symm

end Ces
