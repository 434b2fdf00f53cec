import Ces.Lib.Interaction

/-!
# Traces of guarded writes

A state machine whose steps are made of primitive writes `T` on a state `S`. `Runs act can s ts s'` says that
the writes `ts`, each allowed by `can` at the moment it is made, lead from `s` to `s'`; `Meets act ok s ts`
says that each of them also satisfies `ok` at that moment. An invariant then needs one case per write
(`Runs.invariant`), whatever the steps are.

`Program.trace` collects the writes of the calls a program makes.
-/

namespace Ces.Lib

variable {T S : Type} {act : T → S → S} {can ok : T → S → Prop}

/-- The writes `ts` lead from `s` to `s'`, each allowed when it is made. -/
inductive Runs (act : T → S → S) (can : T → S → Prop) : S → List T → S → Prop where
  | nil (s : S) : Runs act can s [] s
  | cons {s s' : S} {t : T} {ts : List T} (hcan : can t s) (hrest : Runs act can (act t s) ts s') :
      Runs act can s (t :: ts) s'

/-- Every write satisfies `ok` in the state it is made in. -/
def Meets (act : T → S → S) (ok : T → S → Prop) : S → List T → Prop
  | _, [] => True
  | s, t :: ts => ok t s ∧ Meets act ok (act t s) ts

instance Meets.decide [∀ t s, Decidable (ok t s)] : ∀ s ts, Decidable (Meets act ok s ts)
  | _, [] => .isTrue trivial
  | s, t :: ts => @instDecidableAnd _ _ (inferInstanceAs (Decidable (ok t s))) (Meets.decide (act t s) ts)

/-- A condition that does not look at the state. -/
theorem Meets.of_forall {p : T → Prop} (s : S) {ts : List T} (h : ∀ t ∈ ts, p t) : Meets act (fun t _ => p t) s ts := by
  induction ts generalizing s with
  | nil => trivial
  | cons t ts ih => exact ⟨h t List.mem_cons_self, ih _ fun u hu => h u (List.mem_cons_of_mem t hu)⟩

/-- A history meets a condition when its first part does, and the rest does from there. -/
theorem Meets.append_iff (s : S) (ts us : List T) :
    Meets act ok s (ts ++ us) ↔ Meets act ok s ts ∧ Meets act ok (ts.foldl (fun s t => act t s) s) us := by
  induction ts generalizing s with
  | nil => simp [Meets]
  | cons t ts ih => simp only [List.cons_append, Meets, List.foldl_cons, ih, and_assoc]

/-- The writes of a fold whose steps make the given ones. -/
def foldTrace {σ κ : Type} (step : σ → κ → σ) (touches : σ → κ → List T) : σ → List κ → List T
  | _, [] => []
  | x, k :: l => touches x k ++ foldTrace step touches (step x k) l

namespace Runs

theorem single {s : S} {t : T} (hcan : can t s) : Runs act can s [t] (act t s) :=
  .cons hcan (.nil _)

theorem of_act {s s' : S} {t : T} (hcan : can t s) (hact : act t s = s') : Runs act can s [t] s' :=
  hact ▸ single hcan

/-- Where a run ends does not depend on what allowed it. -/
theorem eq_foldl {s s' : S} {ts : List T} (h : Runs act can s ts s') : s' = ts.foldl (fun s t => act t s) s := by
  induction h with
  | nil s => rfl
  | cons _ _ ih => exact ih

theorem append {s s' s'' : S} {ts us : List T} (h : Runs act can s ts s') (h' : Runs act can s' us s'') :
    Runs act can s (ts ++ us) s'' := by
  induction h with
  | nil s => exact h'
  | cons hcan _ ih => exact .cons hcan (ih h')

theorem meets_append {s s' : S} {ts us : List T} (h : Runs act can s ts s') :
    Meets act ok s (ts ++ us) ↔ Meets act ok s ts ∧ Meets act ok s' us := by
  induction h with
  | nil s => simp [Meets]
  | cons hcan _ ih => simp only [List.cons_append, Meets, ih, and_assoc]

/-- A run under strict rules is one under lenient rules. -/
theorem mono {can' : T → S → Prop} (hcan : ∀ t s, can t s → can' t s) {s s' : S} {ts : List T}
    (h : Runs act can s ts s') : Runs act can' s ts s' := by
  induction h with
  | nil s => exact .nil s
  | cons hstep _ ih => exact .cons (hcan _ _ hstep) ih

/-- What every allowed write that satisfies `ok` preserves, a run of such writes preserves. -/
theorem invariant {I : S → Prop} (hstep : ∀ t s, can t s → ok t s → I s → I (act t s)) {s s' : S}
    {ts : List T} (h : Runs act can s ts s') (hok : Meets act ok s ts) (hs : I s) : I s' := by
  induction h with
  | nil s => exact hs
  | cons hcan _ ih => exact ih hok.2 (hstep _ _ hcan hok.1 hs)

/-- What every allowed write preserves, every run preserves. -/
theorem keeps {I : S → Prop} (hstep : ∀ t s, can t s → I s → I (act t s)) {s s' : S} {ts : List T}
    (h : Runs act can s ts s') (hs : I s) : I s' := by
  induction h with
  | nil s => exact hs
  | cons hcan _ ih => exact ih (hstep _ _ hcan hs)

/-- What every allowed write preserves or ends in the way `out`, a run preserves up to the first write that ends
it. -/
theorem keeps_until {I : S → Prop} {out : T → S → Prop}
    (hstep : ∀ t s, can t s → ok t s → I s → I (act t s) ∨ out t s) {s s' : S} {ts : List T}
    (h : Runs act can s ts s') (hok : Meets act ok s ts) (hs : I s) :
    I s' ∨ ∃ before t after m, ts = before ++ t :: after ∧ Runs act can s before m ∧ I m ∧ out t m := by
  induction h with
  | nil s => exact .inl hs
  | @cons s s' t ts hcan _ ih =>
    rcases hstep _ _ hcan hok.1 hs with hkept | hout
    · rcases ih hok.2 hkept with hend | ⟨before, u, after, m, rfl, hruns, hm, hu⟩
      · exact .inl hend
      · exact .inr ⟨t :: before, u, after, m, rfl, .cons hcan hruns, hm, hu⟩
    · exact .inr ⟨[], t, ts, s, rfl, .nil s, hs, hout⟩

/-- The writes of a fold, collected step by step. -/
theorem foldl {σ κ : Type} (view : σ → S) {step : σ → κ → σ} {touches : σ → κ → List T}
    (hstep : ∀ x k, Runs act can (view x) (touches x k) (view (step x k))) (l : List κ) (x : σ) :
    Runs act can (view x) (foldTrace step touches x l) (view (l.foldl step x)) := by
  induction l generalizing x with
  | nil => exact .nil _
  | cons k l ih => exact (hstep x k).append (ih _)

end Runs

/-- A fold whose steps leave a part of the state alone leaves it alone. -/
theorem foldl_keeps {σ κ β : Type} (view : σ → β) {f : σ → κ → σ} (hf : ∀ s k, view (f s k) = view s)
    (l : List κ) (s : σ) : view (l.foldl f s) = view s := by
  induction l generalizing s with
  | nil => rfl
  | cons k l ih => exact (ih (f s k)).trans (hf s k)

/-! ### Programs -/

namespace Program

variable {C R A σ : Type} {handle : C → σ → R × σ} {touches : C → σ → List T}

/-- The writes of the calls a program makes. -/
def trace (handle : C → σ → R × σ) (touches : C → σ → List T) : Program C R A → σ → List T
  | done _, _ => []
  | call c next, s => touches c s ++ (next (handle c s).1).trace handle touches (handle c s).2

theorem runs_trace (view : σ → S) (hcall : ∀ c s, Runs act can (view s) (touches c s) (view (handle c s).2))
    (p : Program C R A) (s : σ) :
    Runs act can (view s) (p.trace handle touches s) (view (p.run handle s).2) := by
  induction p generalizing s with
  | done a => exact .nil _
  | call c next ih => exact (hcall c s).append (ih _ _)

end Program

end Ces.Lib
