import Mathlib.Data.List.DropRight
import Ces.Types

/-!
# Key names

The registry that gives a public key a name: the forward store and the reverse index derived from it.
-/

namespace Ces

open Ces.Lib

abbrev KeyNameData := ByteArr 32

/-- `byName` maps a normalized name to its key. -/
structure KeyNames where
  store : FMap Hash KeyNameData
  byName : FMap KeyNameData Hash

namespace KeyNames

inductive RegisterResult where
  | ok
  | nameTaken
  | capacityFull
  | badName
  deriving DecidableEq

/-- The canonical form: spaces become underscores and the boundary ones go. -/
def normalize (name : KeyNameData) : KeyNameData :=
  let mapped := (name.bytes.takeWhile (· != 0)).map fun b => if b = 0x20 then 0x5F else b
  ByteArr.ofList 32 ((mapped.dropWhile (· == 0x5F)).rdropWhile (· == 0x5F))

/-- The characters that would break a path or a URL. -/
def badBytes : Bytes :=
  [0x2F, 0x5C, 0x3A, 0x2A, 0x3F, 0x22, 0x3C, 0x3E, 0x7C, 0x23, 0x25, 0x26, 0x7B, 0x7D, 0x5B, 0x5D, 0x5E,
    0x7E, 0x3B, 0x40, 0x3D, 0x2B, 0x2C, 0x60, 0x27, 0x28, 0x29, 0x24, 0x21]

/-- The scan of `validName`: harmless bytes, then only zero padding. -/
def wellPadded (ended : Bool) : Bytes → Bool
  | [] => true
  | b :: rest =>
    if b = 0 then wellPadded true rest
    else if ended then false
    else if b < 0x20 then false
    else if b < 0x80 ∧ b ∈ badBytes then false
    else wellPadded ended rest

def validName (name : KeyNameData) : Bool :=
  match name.bytes with
  | [] => false
  | first :: _ =>
    first != 0 && first != 0x2E && first != 0x2D && first != 0x5F && wellPadded false name.bytes

/-- The stored name of a key; an all-zero name is an erased entry. -/
def nameForKey (names : KeyNames) (key : Hash) : Option KeyNameData :=
  match names.store.lookup key with
  | none => none
  | some name => if name = ByteArr.zero 32 then none else some name

def keyForName (names : KeyNames) (name : KeyNameData) : Option Hash := names.byName.lookup name

/-- One entry of the forward store entered into the index, where `emplace` keeps the first comer. -/
def indexEntry (store : FMap Hash KeyNameData) (byName : FMap KeyNameData Hash) (key : Hash) :
    FMap KeyNameData Hash :=
  match store.lookup key with
  | none => byName
  | some name =>
    if name = ByteArr.zero 32 ∨ byName.lookup (normalize name) ≠ none then byName
    else byName.insert (normalize name) key

/-- `rebuildReverse`, the store walked in the given order. -/
def rebuildReverse (names : KeyNames) (order : List Hash) : KeyNames :=
  { names with byName := order.foldl (indexEntry names.store) ∅ }

/-- A cap of zero is no cap. -/
def registerName (names : KeyNames) (key : Hash) (name : KeyNameData) (maxKeyName : Nat) :
    RegisterResult × KeyNames :=
  let norm := normalize name
  if !validName norm then (.badName, names)
  else if names.byName.lookup norm ≠ none ∧ names.byName.lookup norm ≠ some key then (.nameTaken, names)
  else
    let existing := names.nameForKey key
    if existing = none ∧ maxKeyName ≠ 0 ∧ maxKeyName ≤ names.store.size then (.capacityFull, names)
    else
      let freed := existing.elim names.byName fun old => names.byName.erase (normalize old)
      (.ok, ⟨names.store.insert key norm, freed.insert norm key⟩)

def clearName (names : KeyNames) (key : Hash) : Bool × KeyNames :=
  match names.nameForKey key with
  | none => (false, names)
  | some name => (true, ⟨names.store.erase key, names.byName.erase (normalize name)⟩)

end KeyNames

end Ces
