import Ces.Lib.Posix
import Ces.Types

/-!
# File names

A CES file name is a byte string `/<zone>/<something>/...`. `validateCesFileName` decides which strings are
names; `isServerZone` is the one test of the server's own zone, and looks at the first three characters only.
`resolveContentPath` joins a name to the store directory the way `std::filesystem::path` does: what follows
the first character is appended, unless it starts with a slash of its own, which makes it a path from the
root.
-/

namespace Ces

open Ces.Lib Ces.Lib.Posix

def maxNameLen : Nat := 512
def maxPathComponents : Nat := 5

def sidecarSuffix : Bytes := ascii ".sidecar.toml"
def storeMetaName : Bytes := ascii ".store.toml"
/-- One component of a name. A component that starts with a dot, or ends like a sidecar, is refused. -/
def validComponent (c : Bytes) : Bool :=
  !c.isEmpty && decide (c.length ≤ nameMax) && !c.contains 0 && !(c.head? == some dot) &&
    !sidecarSuffix.isSuffixOf c

def isLowerHex (b : UInt8) : Bool := (48 ≤ b && b ≤ 57) || (97 ≤ b && b ≤ 102)

/-- The rules of the zones: one letter of `h f p s m`, and a key in hex below `h` and `m`. -/
def validZone : List Bytes → Bool
  | [zone] :: second :: _ =>
    (ascii "hfpsm").contains zone &&
      (!(ascii "hm").contains zone || (second.length == 64 && second.all isLowerHex))
  | _ => false

def validateCesFileName : Bytes → Rc
  | [] => .badName
  | first :: rest =>
    if first ≠ slash then .badName
    else if maxNameLen < rest.length + 1 then .badName
    else if rest = [] then .badName
    else if rest.getLast? = some slash then .badName
    else if !(components rest).all validComponent then .badName
    else if maxPathComponents < (components rest).length then .badName
    else if (components rest).length < 2 then .badName
    else if !validZone (components rest) then .badName
    else .ok

/-- The server's zone: unmetered, and privileged for the programs in it. -/
def isServerZone (name : Bytes) : Bool := (ascii "/s/").isPrefixOf name

/-! ### Paths of a file -/

/-- `path(dir) / rel`: an absolute right side replaces the left one. -/
def joinPath (dir : List Bytes) (rel : Bytes) : List Bytes :=
  if rel.head? = some slash then components rel else dir ++ components rel

/-- The path as `file_size` and `ifstream` get it, by `c_str()`. A name that passed `validateCesFileName` holds no NUL
and is not cut; an attachment may name anything. -/
def resolveContentPath (dir : List Bytes) (name : Bytes) : List Bytes := joinPath dir (cString (name.drop 1))

/-- Append to the last component, as `operator+=` does on a path string. -/
def appendToPath (path : List Bytes) (suffix : Bytes) : List Bytes :=
  path.dropLast ++ [path.getLastD [] ++ suffix]

def resolveSidecarPath (dir : List Bytes) (name : Bytes) : List Bytes :=
  appendToPath (resolveContentPath dir name) sidecarSuffix

def storeMetaPath (dir : List Bytes) : List Bytes := dir ++ [storeMetaName]

/-! ### What an accepted name looks like -/

structure ValidName (name : Bytes) : Prop where
  rooted : name.head? = some slash
  parts : ∀ c ∈ components (name.drop 1), validComponent c = true
  zone : validZone (components (name.drop 1)) = true

theorem validName_of_validate {name : Bytes} (h : validateCesFileName name = .ok) : ValidName name := by
  cases name with
  | nil => exact absurd h (by decide)
  | cons first rest =>
    dsimp only [validateCesFileName] at h
    split_ifs at h with hfirst hlong hempty hlast hparts hmany hfew hzone
    refine ⟨?_, ?_, ?_⟩
    · simp only [List.head?_cons, Option.some.injEq]
      exact not_not.mp hfirst
    · have hall : (components rest).all validComponent = true := by simpa using hparts
      exact List.all_eq_true.mp hall
    · simpa using hzone

/-- A component of a name is looked up as it is written. -/
theorem plain_of_validComponent {c : Bytes} (h : validComponent c = true) : Plain c := by
  unfold validComponent at h
  simp only [Bool.and_eq_true, Bool.not_eq_true', decide_eq_true_eq] at h
  obtain ⟨⟨⟨⟨hne, hlen⟩, -⟩, hdot⟩, -⟩ := h
  refine ⟨?_, ?_, ?_, hlen⟩ <;> rintro rfl <;> simp_all

theorem named_of_validComponent {c : Bytes} (h : validComponent c = true) :
    c ≠ [] ∧ c ≠ [dot] ∧ c ≠ [dot, dot] := by
  obtain ⟨hempty, hdot, hdots, -⟩ := plain_of_validComponent h
  exact ⟨hempty, hdot, hdots⟩

/-- No component of a name ends like a sidecar. -/
theorem not_sidecar_of_validComponent {c : Bytes} (h : validComponent c = true) :
    sidecarSuffix.isSuffixOf c = false := by
  unfold validComponent at h
  simp only [Bool.and_eq_true, Bool.not_eq_true'] at h
  exact h.2

/-- A name is its components, joined again. -/
theorem ValidName.eq_join {name : Bytes} (h : ValidName name) :
    name = slash :: List.intercalate [slash] (components (name.drop 1)) := by
  have hjoin : List.intercalate [slash] (components (name.drop 1)) = name.drop 1 :=
    List.intercalate_splitOn slash
  rw [hjoin]
  have hroot := h.rooted
  cases name with
  | nil => simp at hroot
  | cons b tail =>
    obtain rfl : b = slash := by simpa using hroot
    rfl

/-- A name holds no NUL. -/
theorem ValidName.cString_eq {name : Bytes} (h : ValidName name) : cString (name.drop 1) = name.drop 1 := by
  refine cString_eq_self fun hzero => ?_
  obtain ⟨c, hc, hmem⟩ := exists_mem_components hzero (by decide)
  have hvalid := h.parts c hc
  unfold validComponent at hvalid
  simp only [Bool.and_eq_true, Bool.not_eq_true'] at hvalid
  have hin : c.contains 0 = true := List.contains_iff_mem.mpr hmem
  rw [hvalid.1.1.2] at hin
  cases hin

/-- What follows the first slash of a name starts with no slash, so the name is looked up below the store. -/
theorem ValidName.contentPath_eq {name : Bytes} (h : ValidName name) (dir : List Bytes) :
    resolveContentPath dir name = dir ++ components (name.drop 1) := by
  unfold resolveContentPath joinPath
  rw [h.cString_eq, if_neg]
  intro hslash
  cases hrel : name.drop 1 with
  | nil =>
    rw [hrel] at hslash
    exact absurd hslash (by simp)
  | cons b rest =>
    rw [hrel] at hslash
    obtain rfl : b = slash := by simpa using hslash
    have hfirst : ([] : Bytes) ∈ components (name.drop 1) := by
      rw [hrel]
      simp [components, List.splitOn, List.splitOnP_cons_eq_if_modifyHead]
    exact absurd (h.parts [] hfirst) (by decide)

/-! ### Content and sidecar -/

/-- A component with a suffix as long as a sidecar's is looked up as it is written. -/
theorem named_sidecarSuffix (c : Bytes) :
    c ++ sidecarSuffix ≠ [] ∧ c ++ sidecarSuffix ≠ [dot] ∧ c ++ sidecarSuffix ≠ [dot, dot] := by
  have hlen : (c ++ sidecarSuffix).length = c.length + 13 := by
    rw [List.length_append]
    rfl
  refine ⟨?_, ?_, ?_⟩ <;> intro h <;> rw [h] at hlen <;> simp at hlen

/-- The parts of a valid name: the zone and at least one component below it. -/
theorem ValidName.split {name : Bytes} (h : ValidName name) :
    ∃ zone rest, components (name.drop 1) = zone :: rest ∧ rest ≠ [] ∧
      ∀ c ∈ zone :: rest, validComponent c = true := by
  have hzone := h.zone
  have hparts := h.parts
  cases hc : components (name.drop 1) with
  | nil =>
    rw [hc] at hzone
    exact absurd hzone (by simp [validZone])
  | cons zone rest =>
    rw [hc] at hzone hparts
    refine ⟨zone, rest, rfl, ?_, hparts⟩
    rintro rfl
    exact absurd hzone (by simp [validZone])

/-- The content of a valid name is no sidecar. -/
theorem ValidName.content_not_sidecar {α : Type} {t : FileTree α} {name : Bytes} {p : Location} {dir : List Bytes}
    (h : ValidName name) (hresolve : t.resolve (resolveContentPath dir name) = some p) :
    sidecarSuffix.isSuffixOf (p.getLastD []) = false := by
  obtain ⟨zone, rest, hsplit, hrest, hvalid⟩ := h.split
  have hlast := hvalid (rest.getLast hrest) (List.mem_cons_of_mem _ (List.getLast_mem hrest))
  have hpath : resolveContentPath dir name =
      (dir ++ zone :: rest.dropLast) ++ [rest.getLast hrest] := by
    rw [h.contentPath_eq, hsplit, List.append_assoc, List.cons_append, List.dropLast_append_getLast]
  rw [hpath] at hresolve
  obtain ⟨q, rfl⟩ := t.resolve_concat (named_of_validComponent hlast) hresolve
  rw [List.getLastD_eq_getLast?, List.getLast?_concat]
  exact not_sidecar_of_validComponent hlast

end Ces
