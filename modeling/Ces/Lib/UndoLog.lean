import Mathlib.Data.List.Basic

/-!
# Undo logs

A write pushes an entry before it changes the state, and `revert` replays the entries newest first.
`Undoes undo s new s'` says that the entries `new`, pushed on the way from `s` to `s'`, take `s'` back
to `s`; it composes, so one fact per write gives the restoration of any interleaving of writes.
-/

namespace Ces.Lib

variable {S E : Type} (undo : E → S → S)

/-- Replay a log, newest entry first. -/
def revert (log : List E) (s : S) : S := log.foldl (fun s e => undo e s) s

@[simp] theorem revert_cons (e : E) (log : List E) (s : S) :
    revert undo (e :: log) s = revert undo log (undo e s) := rfl

theorem revert_append (new old : List E) (s : S) :
    revert undo (new ++ old) s = revert undo old (revert undo new s) :=
  List.foldl_append

/-- The entries `new` take `s'` back to `s`. -/
def Undoes (s : S) (new : List E) (s' : S) : Prop := revert undo new s' = s

theorem Undoes.refl (s : S) : Undoes undo s [] s := rfl

variable {undo}

theorem Undoes.trans {s t u : S} {new new' : List E} (h : Undoes undo s new t)
    (h' : Undoes undo t new' u) : Undoes undo s (new' ++ new) u := by
  unfold Undoes at *
  rw [revert_append, h', h]

end Ces.Lib
