import Ces.Lib.Interaction

/-!
# Sequencing, loops and simulation of programs

`bind` runs one program after another and `loop` turns a body over and over, as long as its fuel lasts.
Two programs simulate each other (`Sim`) when they make the same calls in the same order whatever the
replies, and end in related results. Simulations compose along `bind` and, turn by turn, along `loop`
(`Sim.loop`); when the results of one side determine those of the other, they are an equation (`Sim.map_eq`).
`Ends` says that every result a program can end with satisfies a predicate.

`Tracks` carries a ghost counter that the replies advance: every call and every result is judged by what the
replies so far added up to. `spent` is what they add up to on a run against a given host.
-/

namespace Ces.Lib

/-- What a turn of a loop decides: go on, or stop here. -/
inductive Turn (S : Type) where
  | next (s : S)
  | stop (s : S)

namespace Turn

variable {S T : Type}

/-- Both go on or both stop, in related states. -/
inductive Rel (rel : S → T → Prop) : Turn S → Turn T → Prop where
  | next {s t} (h : rel s t) : Rel rel (.next s) (.next t)
  | stop {s t} (h : rel s t) : Rel rel (.stop s) (.stop t)

/-- The state the turn ends in. -/
def state : Turn S → S
  | next s => s
  | stop s => s

def map (f : S → T) : Turn S → Turn T
  | next s => next (f s)
  | stop s => stop (f s)

end Turn

namespace Program

variable {C R A B A' B' S T σ : Type}

def bind : Program C R A → (A → Program C R B) → Program C R B
  | done a, k => k a
  | call c next, k => call c fun r => (next r).bind k

def map (f : A → B) (p : Program C R A) : Program C R B := p.bind fun a => done (f a)

theorem map_map {f : A → B} {g : B → B'} (p : Program C R A) : (p.map f).map g = p.map fun a => g (f a) := by
  induction p with
  | done a => rfl
  | call c next ih => exact congrArg (call c) (funext ih)

theorem run_bind (handle : C → σ → R × σ) (p : Program C R A) (k : A → Program C R B) (s : σ) :
    (p.bind k).run handle s = (k (p.run handle s).1).run handle (p.run handle s).2 := by
  induction p generalizing s with
  | done a => rfl
  | call c next ih => exact ih _ _

/-- Turn the body at most `fuel` times; `none` when the fuel ran out first. -/
def loop (body : S → Program C R (Turn S)) : Nat → S → Program C R (Option S)
  | 0, _ => done none
  | fuel + 1, s => (body s).bind fun
    | .next s' => loop body fuel s'
    | .stop s' => done (some s')

/-- The first `n` turns, and where they lead. -/
def turns (body : S → Program C R (Turn S)) : Nat → S → Program C R (Turn S)
  | 0, s => done (.next s)
  | n + 1, s => (body s).bind fun
    | .next s' => turns body n s'
    | .stop s' => done (.stop s')

/-! ### Results -/

/-- Every result the program can end with satisfies `q`. -/
def Ends (q : A → Prop) : Program C R A → Prop
  | done a => q a
  | call _ next => ∀ r, (next r).Ends q

theorem Ends.bind {q : A → Prop} {q' : B → Prop} {p : Program C R A} {k : A → Program C R B}
    (h : p.Ends q) (hk : ∀ a, q a → (k a).Ends q') : (p.bind k).Ends q' := by
  induction p with
  | done a => exact hk a h
  | call c next ih => exact fun r => ih r (h r)

theorem Ends.map {q : A → Prop} {q' : B → Prop} {f : A → B} {p : Program C R A} (h : p.Ends q)
    (hf : ∀ a, q a → q' (f a)) : (p.map f).Ends q' :=
  h.bind fun a ha => hf a ha

theorem ends_true (p : Program C R A) : p.Ends fun _ => True := by
  induction p with
  | done a => trivial
  | call c next ih => exact ih

/-- The result of a run is one the program can end with. -/
theorem Ends.run {q : A → Prop} {p : Program C R A} (h : p.Ends q) (handle : C → σ → R × σ) (s : σ) :
    q (p.run handle s).1 := by
  induction p generalizing s with
  | done a => exact h
  | call c next ih => exact ih _ (h _) _

theorem Ends.loop {inv : S → Prop} {body : S → Program C R (Turn S)}
    (hbody : ∀ s, inv s → (body s).Ends fun t => inv t.state) (fuel : Nat) {s : S} (hs : inv s) :
    (Program.loop body fuel s).Ends fun o => ∀ s, o = some s → inv s := by
  induction fuel generalizing s with
  | zero => exact fun _ h => nomatch h
  | succ fuel ih =>
    refine (hbody s hs).bind fun t ht => ?_
    cases t with
    | next s' => exact ih ht
    | stop s' =>
      intro s'' h
      rw [Option.some.injEq] at h
      exact h ▸ ht

/-! ### A counter the replies advance -/

section tracks

variable (gain : C → R → Nat)

/-- Starting from the count `g`, every call satisfies `p` and every result `q`, each at its own count. -/
def Tracks (p : Nat → C → Prop) (q : Nat → A → Prop) : Nat → Program C R A → Prop
  | g, done a => q g a
  | g, call c next => p g c ∧ ∀ r, (next r).Tracks p q (g + gain c r)

/-- What the replies of this run add up to. -/
def spent (handle : C → σ → R × σ) : Program C R A → σ → Nat
  | done _, _ => 0
  | call c next, s => gain c (handle c s).1 + (next (handle c s).1).spent handle (handle c s).2

variable {gain} {p p' : Nat → C → Prop} {q q' : Nat → A → Prop} {g : Nat}

theorem Tracks.mono (hp : ∀ g c, p g c → p' g c) (hq : ∀ g a, q g a → q' g a) {prog : Program C R A}
    (h : prog.Tracks gain p q g) : prog.Tracks gain p' q' g := by
  induction prog generalizing g with
  | done a => exact hq g a h
  | call c next ih => exact ⟨hp g c h.1, fun r => ih r (h.2 r)⟩

theorem Tracks.bind {q' : Nat → B → Prop} {prog : Program C R A} {k : A → Program C R B}
    (h : prog.Tracks gain p q g) (hk : ∀ g a, q g a → (k a).Tracks gain p q' g) :
    (prog.bind k).Tracks gain p q' g := by
  induction prog generalizing g with
  | done a => exact hk g a h
  | call c next ih => exact ⟨h.1, fun r => ih r (h.2 r)⟩

theorem Tracks.map {q' : Nat → B → Prop} {f : A → B} {prog : Program C R A} (h : prog.Tracks gain p q g)
    (hf : ∀ g a, q g a → q' g (f a)) : (prog.map f).Tracks gain p q' g :=
  h.bind fun g a ha => hf g a ha

/-- The result of a run, judged by what the replies added up to. -/
theorem Tracks.run {prog : Program C R A} (h : prog.Tracks gain p q g) (handle : C → σ → R × σ) (s : σ) :
    q (g + prog.spent gain handle s) (prog.run handle s).1 := by
  induction prog generalizing g s with
  | done a => exact h
  | call c next ih =>
    have hnext := ih _ (h.2 (handle c s).1) (handle c s).2
    rwa [Nat.add_assoc] at hnext

theorem Tracks.ends {prog : Program C R A} (h : prog.Tracks gain p q g) : prog.Ends fun a => ∃ g, q g a := by
  induction prog generalizing g with
  | done a => exact ⟨g, h⟩
  | call c next ih => exact fun r => ih r (h.2 r)

theorem spent_bind (handle : C → σ → R × σ) (prog : Program C R A) (k : A → Program C R B) (s : σ) :
    (prog.bind k).spent gain handle s =
      prog.spent gain handle s + (k (prog.run handle s).1).spent gain handle (prog.run handle s).2 := by
  induction prog generalizing s with
  | done a => exact (Nat.zero_add _).symm
  | call c next ih =>
    change gain c (handle c s).1 + ((next _).bind k).spent gain handle _ = _
    rw [ih]
    exact (Nat.add_assoc _ _ _).symm

section loops

variable {body : S → Program C R (Turn S)}

/-- What every turn keeps, holds after any number of them. -/
theorem Tracks.turns {q : Nat → Turn S → Prop}
    (hbody : ∀ g s, q g (.next s) → (body s).Tracks gain p q g) (n : Nat) {s : S} (hs : q g (.next s)) :
    (Program.turns body n s).Tracks gain p q g := by
  induction n generalizing g s with
  | zero => exact hs
  | succ n ih =>
    refine (hbody g s hs).bind fun g t ht => ?_
    cases t with
    | next s' => exact ih ht
    | stop s' => exact ht

/-- A turn that goes on lowers the measure, up to what the replies gave; so enough fuel ends the loop. -/
theorem loop_isSome {μ : S → Nat} {inv : S → Prop}
    (hbody : ∀ s, inv s → (body s).Tracks gain p
      (fun g t => ∀ s', t = .next s' → inv s' ∧ μ s' < μ s + g) 0)
    (handle : C → σ → R × σ) (fuel : Nat) {s : S} (hs : inv s) (st : σ)
    (hfuel : μ s + (Program.loop body fuel s).spent gain handle st < fuel) :
    ((Program.loop body fuel s).run handle st).1.isSome := by
  induction fuel generalizing s st with
  | zero => exact absurd hfuel (Nat.not_lt_zero _)
  | succ fuel ih =>
    have hturn := (hbody s hs).run handle st
    unfold Program.loop at hfuel ⊢
    rw [spent_bind] at hfuel
    rw [run_bind]
    cases ht : ((body s).run handle st).1 with
    | next s' =>
      rw [ht] at hfuel
      obtain ⟨hs', hlt⟩ := hturn s' ht
      refine ih hs' _ ?_
      simp only at hfuel
      omega
    | stop s' => rfl

end loops

end tracks

/-! ### Simulation -/

/-- The same calls whatever the replies, and related results. -/
inductive Sim (rel : A → B → Prop) : Program C R A → Program C R B → Prop where
  | done {a b} (h : rel a b) : Sim rel (done a) (done b)
  | call {c next next'} (h : ∀ r, Sim rel (next r) (next' r)) : Sim rel (call c next) (call c next')

namespace Sim

variable {rel : A → B → Prop} {rel' : A' → B' → Prop}

theorem bind {p : Program C R A} {q : Program C R B} {k : A → Program C R A'} {l : B → Program C R B'}
    (h : Sim rel p q) (hk : ∀ a b, rel a b → Sim rel' (k a) (l b)) : Sim rel' (p.bind k) (q.bind l) := by
  induction h with
  | done h => exact hk _ _ h
  | call _ ih => exact .call ih

/-- A program simulates itself, and both copies end in the same one of its results. -/
theorem of_ends {q : A → Prop} {p : Program C R A} (h : p.Ends q) : Sim (fun a b => a = b ∧ q a) p p := by
  induction p with
  | done a => exact .done ⟨rfl, h⟩
  | call c next ih => exact .call fun r => ih r (h r)

/-- A simulation whose results determine each other is an equation. -/
theorem map_eq {f : A → B} {p : Program C R A} {q : Program C R B} (h : Sim rel p q)
    (hf : ∀ a b, rel a b → f a = b) : p.map f = q := by
  induction h with
  | done h => exact congrArg Program.done (hf _ _ h)
  | call _ ih => exact congrArg (Program.call _) (funext ih)

/-- Turns of bodies that simulate each other. -/
theorem turns {rel : S → T → Prop} {body : S → Program C R (Turn S)} {body' : T → Program C R (Turn T)}
    (hbody : ∀ s t, rel s t → Sim (Turn.Rel rel) (body s) (body' t)) (n : Nat) {s : S} {t : T} (h : rel s t) :
    Sim (Turn.Rel rel) (Program.turns body n s) (Program.turns body' n t) := by
  induction n generalizing s t with
  | zero => exact .done (.next h)
  | succ n ih =>
    refine (hbody s t h).bind fun _ _ hturn => ?_
    cases hturn with
    | next hnext => exact ih hnext
    | stop hstop => exact .done (.stop hstop)

/-- Loops whose bodies simulate each other turn by turn. -/
theorem loop {rel : S → T → Prop} {body : S → Program C R (Turn S)} {body' : T → Program C R (Turn T)}
    (hbody : ∀ s t, rel s t → Sim (Turn.Rel rel) (body s) (body' t)) (fuel : Nat) {s : S} {t : T}
    (h : rel s t) :
    Sim (Option.Rel rel) (Program.loop body fuel s) (Program.loop body' fuel t) := by
  induction fuel generalizing s t with
  | zero => exact .done .none
  | succ fuel ih =>
    refine (hbody s t h).bind fun _ _ hturn => ?_
    cases hturn with
    | next hnext => exact ih hnext
    | stop hstop => exact .done (.some hstop)

end Sim

end Program

end Ces.Lib
