import Ces.Lib.Bytes

/-!
# Streams of framed requests

A server reads requests off a byte stream one after the other. `read` is what it does with the bytes at the place
where it expects a request, `extent` how long the request there says it is. If every answer after which the server
goes on consumed exactly the request (`Exact`), the server only ever looks for a request where one begins
(`boundary_of_exact`).
-/

namespace Ces.Lib

/-- What a server does with the bytes at the place where it expects a request. -/
inductive Reading (σ : Type) where
  /-- The stream ends within the request. -/
  | waits
  /-- The channel is dropped without an answer. -/
  | drops
  | closes (answer : σ)
  | loops (answer : σ) (consumed : Nat)
  deriving DecidableEq

section

variable {σ : Type} (read : Bytes → Reading σ) (extent : Bytes → Option Nat) (s : Bytes)

/-- The places of a stream at which the server expects a request. -/
inductive Reached : Bytes → Prop where
  | start : Reached s
  | next {t : Bytes} {answer : σ} {consumed : Nat} (h : Reached t) (hread : read t = .loops answer consumed) :
      Reached (t.drop consumed)

/-- The places of a stream at which a request begins. -/
inductive Boundary : Bytes → Prop where
  | start : Boundary s
  | next {t : Bytes} {length : Nat} (h : Boundary t) (hextent : extent t = some length) : Boundary (t.drop length)

/-- If the server goes on after this request, it has consumed the request and nothing else. -/
def Exact (t : Bytes) : Prop := ∀ answer consumed, read t = .loops answer consumed → extent t = some consumed

variable {read extent s}

theorem boundary_of_exact (hexact : ∀ t, Reached read s t → Exact read extent t) {t : Bytes} (h : Reached read s t) :
    Boundary extent s t := by
  induction h with
  | start => exact .start
  | next hreached hread ih => exact .next ih (hexact _ hreached _ _ hread)

end

end Ces.Lib
