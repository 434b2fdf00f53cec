import Mathlib.Logic.Function.Basic

/-!
# Programs that talk to a host

A `Program C R A` makes calls `C` to its host, branches on the replies `R` and ends with an `A`. It
is inductive, so every branch ends: what a metered interpreter denotes once its fuel is fixed.
`run handle` executes it against a stateful host.

The rules derive a property of whole runs from the property of one call:

* `run_rel`: a reflexive and transitive relation that every call respects relates the first state to
  the last one;
* `run_rel_of_calls`, `run_rel_along`: the same when only the calls the program can make, or only the
  calls it makes on this run, are known to respect it;
* `along_iff_measure`: a counter that only some calls advance tells whether a run made such a call.
-/

namespace Ces.Lib

/-- A terminating interaction with a host. -/
inductive Program (C R A : Type) where
  | done (result : A)
  | call (c : C) (next : R → Program C R A)

namespace Program

variable {C R A σ : Type}

/-- Execute a program against a host with state `σ`. -/
def run (handle : C → σ → R × σ) : Program C R A → σ → A × σ
  | done result, s => (result, s)
  | call c next, s => (next (handle c s).1).run handle (handle c s).2

@[simp] theorem run_call (handle : C → σ → R × σ) (c : C) (next : R → Program C R A) (s : σ) :
    (call c next).run handle s = (next (handle c s).1).run handle (handle c s).2 := rfl

/-- Every call the program can make, on any branch, satisfies `p`. -/
def Calls (p : C → Prop) : Program C R A → Prop
  | done _ => True
  | call c next => p c ∧ ∀ r, (next r).Calls p

/-- Every call the program makes when run from `s` satisfies `q` in the state it is made in. -/
def Along (handle : C → σ → R × σ) (q : C → σ → Prop) : Program C R A → σ → Prop
  | done _, _ => True
  | call c next, s => q c s ∧ (next (handle c s).1).Along handle q (handle c s).2

section rules

variable {handle : C → σ → R × σ} {rel : σ → σ → Prop}

theorem run_rel_along (hrefl : ∀ s, rel s s)
    (htrans : ∀ {s t u}, rel s t → rel t u → rel s u) {q : C → σ → Prop}
    (hstep : ∀ c s, q c s → rel s (handle c s).2) (p : Program C R A) (s : σ)
    (hq : p.Along handle q s) : rel s (p.run handle s).2 := by
  induction p generalizing s with
  | done a => exact hrefl s
  | call c next ih => exact htrans (hstep c s hq.1) (ih _ _ hq.2)

theorem along_of_calls {p : C → Prop} {q : C → σ → Prop} (himp : ∀ c s, p c → q c s)
    (prog : Program C R A) (s : σ) (hp : prog.Calls p) : prog.Along handle q s := by
  induction prog generalizing s with
  | done a => trivial
  | call c next ih => exact ⟨himp c s hp.1, ih _ _ (hp.2 _)⟩

theorem run_rel_of_calls (hrefl : ∀ s, rel s s)
    (htrans : ∀ {s t u}, rel s t → rel t u → rel s u) {p : C → Prop}
    (hstep : ∀ c s, p c → rel s (handle c s).2) (prog : Program C R A) (s : σ)
    (hp : prog.Calls p) : rel s (prog.run handle s).2 :=
  run_rel_along hrefl htrans hstep prog s (along_of_calls (fun _ _ h => h) prog s hp)

theorem run_rel (hrefl : ∀ s, rel s s) (htrans : ∀ {s t u}, rel s t → rel t u → rel s u)
    (hstep : ∀ c s, rel s (handle c s).2) (p : Program C R A) (s : σ) :
    rel s (p.run handle s).2 := by
  induction p generalizing s with
  | done a => exact hrefl s
  | call c next ih => exact htrans (hstep c s) (ih _ _)

end rules

section measure

variable {handle : C → σ → R × σ} {m : σ → Nat} {q : C → σ → Prop}

theorem run_measure_mono (hq : ∀ c s, q c s → m (handle c s).2 = m s)
    (hgrow : ∀ c s, ¬ q c s → m s < m (handle c s).2) (p : Program C R A) (s : σ) :
    m s ≤ m (p.run handle s).2 := by
  have hstep : ∀ c s, m s ≤ m (handle c s).2 := by
    intro c s
    by_cases h : q c s
    · exact Nat.le_of_eq (hq c s h).symm
    · exact Nat.le_of_lt (hgrow c s h)
  exact @run_rel C R A σ handle (fun s t => m s ≤ m t) (fun s => Nat.le_refl _) Nat.le_trans hstep p s

/-- When exactly the calls outside `q` make the measure grow, a run leaves it alone exactly when it
makes no such call. -/
theorem along_iff_measure (hq : ∀ c s, q c s → m (handle c s).2 = m s)
    (hgrow : ∀ c s, ¬ q c s → m s < m (handle c s).2) (p : Program C R A) (s : σ) :
    p.Along handle q s ↔ m (p.run handle s).2 = m s := by
  induction p generalizing s with
  | done a => exact iff_of_true trivial rfl
  | call c next ih =>
    have hrest := run_measure_mono hq hgrow (next (handle c s).1) (handle c s).2
    simp only [Along, run_call, ih]
    by_cases h : q c s
    · simp [h, hq c s h]
    · have hc := hgrow c s h
      simp only [h, false_and, false_iff]
      omega

end measure

end Program

end Ces.Lib
