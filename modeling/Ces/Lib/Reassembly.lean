import Ces.Lib.Bytes

/-!
# Items off a byte stream

A receiver appends what it reads to a buffer and takes items off the front while one is complete. What a `Decoder`
has decided about the front of a buffer does not change when more bytes arrive, so the items that come out depend on
the stream and not on how it was cut into reads (`feed_eq_drain`).
-/

namespace Ces.Lib

/-- The front of a buffer: an unfinished item, nothing that can become one, or an item and its length. -/
inductive Front (α : Type) where
  | more
  | bad
  | item (a : α) (size : Nat)

structure Decoder (α : Type) where
  front : Bytes → Front α
  size : ∀ {b a n}, front b = .item a n → 0 < n ∧ n ≤ b.length
  stable : ∀ b, front b ≠ .more → ∀ c, front (b ++ c) = front b

namespace Decoder

variable {α : Type} (d : Decoder α)

/-- The items at the front of a buffer and the rest of it; `none` when the channel is closed over a bad one. -/
def drain (b : Bytes) : List α × Option Bytes :=
  match _h : d.front b with
  | .more => ([], some b)
  | .bad => ([], none)
  | .item a n =>
    let r := drain (b.drop n)
    (a :: r.1, r.2)
termination_by b.length
decreasing_by
  have hsize := d.size _h
  rw [List.length_drop]
  omega

/-- One read after the other. A closed channel reads nothing. -/
def feed : Option Bytes → List Bytes → List α × Option Bytes
  | none, _ => ([], none)
  | some buf, [] => ([], some buf)
  | some buf, c :: cs =>
    let r := d.drain (buf ++ c)
    let t := feed r.2 cs
    (r.1 ++ t.1, t.2)

variable {d}

theorem drain_more {b : Bytes} (h : d.front b = .more) : d.drain b = ([], some b) := by
  rw [drain]
  split <;> simp_all

theorem drain_bad {b : Bytes} (h : d.front b = .bad) : d.drain b = ([], none) := by
  rw [drain]
  split <;> simp_all

theorem drain_item {b : Bytes} {a : α} {n : Nat} (h : d.front b = .item a n) :
    d.drain b = (a :: (d.drain (b.drop n)).1, (d.drain (b.drop n)).2) := by
  rw [drain]
  split <;> simp_all

/-- What is left of a buffer holds no complete item. -/
theorem front_rest {b rest : Bytes} (h : (d.drain b).2 = some rest) : d.front rest = .more := by
  induction b using drain.induct d with
  | case1 b hmore =>
    rw [drain_more hmore] at h
    exact Option.some.inj h ▸ hmore
  | case2 b hbad =>
    rw [drain_bad hbad] at h
    cases h
  | case3 b a n hitem ih =>
    rw [drain_item hitem] at h
    exact ih h

/-- Bytes that come later are looked at with what was left. -/
theorem drain_append (b c : Bytes) :
    d.drain (b ++ c) = (d.drain b).2.elim (d.drain b)
      fun rest => ((d.drain b).1 ++ (d.drain (rest ++ c)).1, (d.drain (rest ++ c)).2) := by
  induction b using drain.induct d with
  | case1 b hmore => simp [drain_more hmore]
  | case2 b hbad =>
    have hsame := d.stable b (by simp [hbad]) c
    rw [drain_bad (hsame.trans hbad), drain_bad hbad]
    rfl
  | case3 b a n hitem ih =>
    have hsame := d.stable b (by simp [hitem]) c
    rw [drain_item (hsame.trans hitem), drain_item hitem, List.drop_append_of_le_length (d.size hitem).2, ih]
    rcases d.drain (b.drop n) with ⟨got, _ | rest⟩ <;> rfl

theorem feed_eq_drain (cs : List Bytes) {buf : Bytes} (hbuf : d.front buf = .more) :
    d.feed (some buf) cs = d.drain (buf ++ cs.flatten) := by
  induction cs generalizing buf with
  | nil => simp [feed, drain_more hbuf]
  | cons c cs ih =>
    rw [feed, List.flatten_cons, ← List.append_assoc, drain_append (buf ++ c)]
    rcases hdrain : d.drain (buf ++ c) with ⟨got, _ | rest⟩
    · simp [feed]
    · simp [ih (front_rest (congrArg Prod.snd hdrain))]

section

variable {encode : α → Bytes} (hempty : d.front [] = .more)
include hempty

theorem drain_encoded {as : List α} (h : ∀ a ∈ as, ∀ rest, d.front (encode a ++ rest) = .item a (encode a).length) :
    d.drain (as.map encode).flatten = (as, some []) := by
  induction as with
  | nil => exact drain_more hempty
  | cons a as ih =>
    rw [List.map_cons, List.flatten_cons, drain_item (h a List.mem_cons_self _), List.drop_left,
      ih fun x hx => h x (List.mem_cons_of_mem a hx)]

/-- However a stream of items is cut and wherever it has got to, the items so far are out and the others will follow. -/
theorem feed_encoded {as : List α} (h : ∀ a ∈ as, ∀ rest, d.front (encode a ++ rest) = .item a (encode a).length)
    {cs : List Bytes} {unread : Bytes} (hcut : cs.flatten ++ unread = (as.map encode).flatten) :
    ∃ got buf later, d.feed (some []) cs = (got, some buf) ∧ got ++ later = as ∧
      d.drain (buf ++ unread) = (later, some []) := by
  have hall := drain_encoded hempty h
  rw [← hcut, drain_append] at hall
  rw [feed_eq_drain cs hempty, List.nil_append]
  rcases hdrain : d.drain cs.flatten with ⟨got, _ | buf⟩
  · simp [hdrain] at hall
  · simp only [hdrain, Option.elim_some, Prod.mk.injEq] at hall
    exact ⟨got, buf, _, rfl, hall.1, Prod.ext rfl hall.2⟩

end

end Decoder

end Ces.Lib
