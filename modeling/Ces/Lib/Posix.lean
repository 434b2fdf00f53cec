import Mathlib.Data.List.TakeWhile
import Ces.Lib.Bytes
import Ces.Lib.FiniteMap

/-!
# Paths and a file tree

A path string is split at its slashes into components; the operating system resolves the components one by
one from the root, through directories only, and `..` leaves the directory it stands in. `FileTree.walk` is that
resolution, without symbolic links. A tree holds the nodes below the root at their resolved paths.

`walk_named` says that a path without empty, `.` and `..` components resolves to itself, so two spellings of one
file can only differ by such components. `Within` says that a tree only lost nodes, `Replaced` that a file was
written beside another and renamed over it.
-/

namespace Ces.Lib.Posix

def slash : UInt8 := 47
def dot : UInt8 := 46

/-- Bytes of an ASCII text. -/
def ascii (s : String) : Bytes := s.toList.map fun c => UInt8.ofNat c.toNat

/-- The components of a path string. A slash at either end gives an empty component. -/
def components (s : Bytes) : List Bytes := List.splitOn slash s

/-- What the operating system reads of a string: it ends at the first NUL. -/
def cString (s : Bytes) : Bytes := s.takeWhile (· ≠ 0)

theorem cString_eq_self {s : Bytes} (h : 0 ∉ s) : cString s = s :=
  List.takeWhile_eq_self_iff.mpr fun _ hb => decide_eq_true fun hzero => h (hzero ▸ hb)

/-- Every byte but a slash is in a component. -/
theorem exists_mem_components {s : Bytes} {b : UInt8} (hb : b ∈ s) (hne : b ≠ slash) :
    ∃ c ∈ components s, b ∈ c := by
  induction s with
  | nil => cases hb
  | cons x s ih =>
    unfold components List.splitOn at *
    rw [List.splitOnP_cons_eq_if_modifyHead]
    split_ifs with hslash
    · have hb' : b ∈ s := (List.mem_cons.mp hb).resolve_left fun h => hne (h.trans (by simpa using hslash))
      obtain ⟨c, hc, hbc⟩ := ih hb'
      exact ⟨c, List.mem_cons_of_mem _ hc, hbc⟩
    · cases hparts : List.splitOnP (· == slash) s with
      | nil => exact absurd hparts (List.splitOnP_ne_nil _ _)
      | cons part parts =>
        rw [List.modifyHead_cons]
        rcases List.mem_cons.mp hb with rfl | hb'
        · exact ⟨_, List.mem_cons_self, List.mem_cons_self⟩
        · obtain ⟨c, hc, hbc⟩ := ih hb'
          rw [hparts] at hc
          rcases List.mem_cons.mp hc with rfl | hc
          · exact ⟨_, List.mem_cons_self, List.mem_cons_of_mem _ hbc⟩
          · exact ⟨c, List.mem_cons_of_mem _ hc, hbc⟩

/-- Where a node sits: the names from the root down. -/
abbrev Location := List Bytes

/-- Longest name a directory can hold. -/
def nameMax : Nat := 255

/-- A component that names an entry of the directory it is looked up in. -/
def Plain (c : Bytes) : Prop := c ≠ [] ∧ c ≠ [dot] ∧ c ≠ [dot, dot] ∧ c.length ≤ nameMax

inductive Node (α : Type) where
  | dir
  | file (content : α)

/-- The nodes below the root. -/
structure FileTree (α : Type) where
  nodes : FMap Location (Node α)

namespace FileTree

variable {α : Type} (t : FileTree α)

def node (p : Location) : Option (Node α) := if p = [] then some .dir else t.nodes.lookup p

def isDir (p : Location) : Bool :=
  match t.node p with
  | some .dir => true
  | _ => false

/-- Follow `rest` from the directory `cur`. The last component need not exist. -/
def walk : Location → List Bytes → Option Location
  | cur, [] => some cur
  | cur, c :: rest =>
    if !t.isDir cur then none
    else if c = [] ∨ c = [dot] then walk cur rest
    else if c = [dot, dot] then walk cur.dropLast rest
    else if nameMax < c.length then none
    else walk (cur ++ [c]) rest

/-- Resolve an absolute path. -/
def resolve (path : List Bytes) : Option Location := t.walk [] path

/-! ### Queries -/

/-- `stat`. -/
def stat (path : List Bytes) : Option (Node α) := (t.resolve path).bind t.node

/-- The content of the regular file at `path`. -/
def read (path : List Bytes) : Option α :=
  match t.stat path with
  | some (.file content) => some content
  | _ => none

/-- Nothing is stored below `p`. -/
def emptyBelow (p : Location) : Prop := ∀ q ∈ t.nodes.keys, p <+: q → q = p

instance (p : Location) : Decidable (t.emptyBelow p) :=
  inferInstanceAs (Decidable (∀ q ∈ t.nodes.keys, _))

/-! ### Changes -/

/-- Open for writing, truncate and write. A directory cannot be opened so. -/
def write (path : List Bytes) (content : α) : Option (FileTree α) :=
  match t.resolve path with
  | none => none
  | some p => if t.isDir p then none else some ⟨t.nodes.insert p (.file content)⟩

/-- `remove`: a file, or a directory with nothing in it. -/
def remove (path : List Bytes) : Option (FileTree α) :=
  match t.resolve path with
  | none => none
  | some p =>
    match t.node p with
    | none => none
    | some (.file _) => some ⟨t.nodes.erase p⟩
    | some .dir => if p ≠ [] ∧ t.emptyBelow p then some ⟨t.nodes.erase p⟩ else none

/-- `remove_all`: the node and everything below it. -/
def removeAll (path : List Bytes) : FileTree α :=
  match t.resolve path with
  | none => t
  | some p => ⟨t.nodes.filterKeys fun q => !decide (p <+: q)⟩

/-- `rename` of a file onto a path that is no directory. -/
def rename (source target : List Bytes) : Option (FileTree α) :=
  match t.read source, t.resolve source with
  | some content, some p => FileTree.write ⟨t.nodes.erase p⟩ target content
  | _, _ => none

/-! ### Resolution -/

/-- A path is followed one part after the other. -/
theorem walk_append (cur : Location) (a b : List Bytes) :
    t.walk cur (a ++ b) = (t.walk cur a).bind fun mid => t.walk mid b := by
  induction a generalizing cur with
  | nil => rfl
  | cons c rest ih =>
    simp only [List.cons_append, walk]
    split_ifs
    · rfl
    · exact ih cur
    · exact ih cur.dropLast
    · rfl
    · exact ih (cur ++ [c])

/-- Components that name entries resolve to themselves, if they resolve. -/
theorem walk_named {cur p : Location} {path : List Bytes}
    (hnamed : ∀ c ∈ path, c ≠ [] ∧ c ≠ [dot] ∧ c ≠ [dot, dot]) (h : t.walk cur path = some p) :
    p = cur ++ path := by
  induction path generalizing cur with
  | nil =>
    rw [List.append_nil]
    exact (Option.some.inj h).symm
  | cons c rest ih =>
    obtain ⟨hempty, hdot, hdots⟩ := hnamed c List.mem_cons_self
    have hrest : ∀ x ∈ rest, x ≠ [] ∧ x ≠ [dot] ∧ x ≠ [dot, dot] := fun x hx =>
      hnamed x (List.mem_cons_of_mem c hx)
    simp only [walk] at h
    split_ifs at h with hdir hskip hlong
    · exact absurd hskip (by simp [hempty, hdot])
    · rw [ih hrest h, List.append_assoc]
      rfl

/-- The last component of a path names the node it resolves to. -/
theorem resolve_concat {path : List Bytes} {c : Bytes} {p : Location}
    (hnamed : c ≠ [] ∧ c ≠ [dot] ∧ c ≠ [dot, dot]) (h : t.resolve (path ++ [c]) = some p) :
    ∃ q, p = q ++ [c] := by
  unfold resolve at h
  rw [walk_append] at h
  obtain ⟨mid, -, hlast⟩ := Option.bind_eq_some_iff.mp h
  refine ⟨mid, t.walk_named (fun x hx => ?_) hlast⟩
  rw [List.mem_singleton.mp hx]
  exact hnamed

/-- A component and the same one with more at its end lead to different nodes. -/
theorem resolve_ne_of_longer {path : List Bytes} {c suffix : Bytes} {p q : Location} (hsuffix : suffix ≠ [])
    (hnamed : c ++ suffix ≠ [] ∧ c ++ suffix ≠ [dot] ∧ c ++ suffix ≠ [dot, dot])
    (hq : t.resolve (path ++ [c]) = some q) (hp : t.resolve (path ++ [c ++ suffix]) = some p) : q ≠ p := by
  unfold resolve at hq hp
  rw [walk_append] at hq hp
  obtain ⟨mid, hmid, hlast⟩ := Option.bind_eq_some_iff.mp hq
  rw [hmid, Option.bind_some] at hp
  obtain rfl : p = mid ++ [c ++ suffix] := by
    refine t.walk_named (fun x hx => ?_) hp
    rw [List.mem_singleton.mp hx]
    exact hnamed
  simp only [walk] at hlast
  split_ifs at hlast
  · obtain rfl := Option.some.inj hlast
    simp
  · obtain rfl := Option.some.inj hlast
    intro heq
    have hlen := congrArg List.length heq
    rw [List.length_dropLast, List.length_append, List.length_singleton] at hlen
    omega
  · obtain rfl := Option.some.inj hlast
    simpa using fun heq : c = c ++ suffix => hsuffix (by simpa using heq)

/-- Resolution only asks which locations are directories. -/
theorem walk_congr {t t' : FileTree α} (h : ∀ p, t'.isDir p = t.isDir p) (cur : Location) (path : List Bytes) :
    t'.walk cur path = t.walk cur path := by
  induction path generalizing cur with
  | nil => rfl
  | cons c rest ih =>
    simp only [walk, h]
    split_ifs
    · rfl
    · exact ih cur
    · exact ih cur.dropLast
    · rfl
    · exact ih (cur ++ [c])

/-! ### Replacing a file -/

section replace

variable {t written t' : FileTree α} {p : Location}

theorem isDir_insert_file (hp : t.isDir p = false) (content : α) (q : Location) :
    FileTree.isDir ⟨t.nodes.insert p (.file content)⟩ q = t.isDir q := by
  unfold isDir node at *
  by_cases hroot : q = []
  · simp [hroot]
  by_cases hqp : q = p
  · subst hqp
    simp only [if_neg hroot] at hp ⊢
    rw [Finmap.lookup_insert, hp]
  · simp only [if_neg hroot, Finmap.lookup_insert_of_ne _ hqp]

theorem isDir_erase (hp : t.isDir p = false) (q : Location) :
    FileTree.isDir ⟨t.nodes.erase p⟩ q = t.isDir q := by
  unfold isDir node at *
  by_cases hroot : q = []
  · simp [hroot]
  by_cases hqp : q = p
  · subst hqp
    simp only [if_neg hroot] at hp ⊢
    rw [Finmap.lookup_erase, hp]
  · simp only [if_neg hroot, Finmap.lookup_erase_ne hqp]

theorem write_eq {path : List Bytes} {content : α} (h : t.write path content = some t') :
    ∃ p, t.resolve path = some p ∧ t.isDir p = false ∧ t' = ⟨t.nodes.insert p (.file content)⟩ := by
  unfold write at h
  cases hresolve : t.resolve path with
  | none => simp [hresolve] at h
  | some p =>
    simp only [hresolve] at h
    split_ifs at h with hdir
    exact ⟨p, rfl, by simpa using hdir, (Option.some.inj h).symm⟩

/-- `t'` is `t` with `content` at `p`, written through a temporary file at `pTmp`. -/
structure Replaced (t t' : FileTree α) (pTmp p : Location) (content : α) : Prop where
  notDirTmp : t.isDir pTmp = false
  notDir : t.isDir p = false
  nodes : t'.nodes = (t.nodes.erase pTmp).insert p (.file content)

/-- Write a temporary file and rename it: the target holds the content, and the temporary file is gone. -/
theorem rename_write {tmp target : List Bytes} {content : α} (hwrite : t.write tmp content = some written)
    (hrename : written.rename tmp target = some t') :
    ∃ pTmp p, t.resolve tmp = some pTmp ∧ t.resolve target = some p ∧ Replaced t t' pTmp p content := by
  obtain ⟨pTmp, htmp, hnotDir, rfl⟩ := write_eq hwrite
  have hsame := isDir_insert_file hnotDir content
  have hresolve : FileTree.resolve ⟨t.nodes.insert pTmp (.file content)⟩ tmp = some pTmp :=
    (walk_congr hsame [] tmp).trans htmp
  have hne : pTmp ≠ [] := by
    rintro rfl
    simp [isDir, node] at hnotDir
  have hread : FileTree.read ⟨t.nodes.insert pTmp (.file content)⟩ tmp = some content := by
    simp [read, stat, hresolve, node, hne]
  simp only [rename, hread, hresolve] at hrename
  obtain ⟨p, htarget, hp, rfl⟩ := write_eq hrename
  have hback : ∀ q, FileTree.isDir ⟨(t.nodes.insert pTmp (.file content)).erase pTmp⟩ q = t.isDir q := fun q =>
    (isDir_erase ((hsame pTmp).trans hnotDir) q).trans (hsame q)
  refine ⟨pTmp, p, htmp, ?_, hnotDir, ?_, ?_⟩
  · rw [← htarget]
    exact (walk_congr hback [] target).symm
  · rw [← hback p]
    exact hp
  · rw [FMap.erase_insert_self]

section replaced

variable {pTmp : Location} {content : α}

theorem Replaced.isDir_eq (h : Replaced t t' pTmp p content) (q : Location) : t'.isDir q = t.isDir q := by
  obtain ⟨nodes⟩ := t'
  obtain rfl : nodes = _ := h.nodes
  have herase := isDir_erase h.notDirTmp
  exact (isDir_insert_file ((herase p).trans h.notDir) content q).trans (herase q)

/-- Replacing a file changes how no path resolves. -/
theorem Replaced.resolve_eq (h : Replaced t t' pTmp p content) (path : List Bytes) :
    t'.resolve path = t.resolve path := walk_congr h.isDir_eq [] path

theorem Replaced.read_target (h : Replaced t t' pTmp p content) {path : List Bytes}
    (hpath : t.resolve path = some p) : t'.read path = some content := by
  have hne : p ≠ [] := by
    rintro rfl
    exact absurd h.notDir (by simp [isDir, node])
  simp [read, stat, h.resolve_eq, hpath, node, hne, h.nodes]

/-- Every other file reads as before. -/
theorem Replaced.read_other (h : Replaced t t' pTmp p content) {path : List Bytes}
    (hpath : ∀ q, t.resolve path = some q → q ≠ p ∧ q ≠ pTmp) : t'.read path = t.read path := by
  unfold read stat
  rw [h.resolve_eq]
  cases hq : t.resolve path with
  | none => rfl
  | some q =>
    obtain ⟨hp, htmp⟩ := hpath q hq
    simp only [Option.bind_some, node, h.nodes]
    rw [Finmap.lookup_insert_of_ne _ hp, Finmap.lookup_erase_ne htmp]

end replaced

end replace

/-! ### Removing nodes -/

/-- Every node of `t'` is a node of `t`. -/
def Within (t' t : FileTree α) : Prop := ∀ p n, t'.nodes.lookup p = some n → t.nodes.lookup p = some n

section within

variable {t t' t'' : FileTree α}

theorem Within.refl (t : FileTree α) : t.Within t := fun _ _ h => h

theorem Within.trans (h : t''.Within t') (h' : t'.Within t) : t''.Within t := fun p n hn => h' p n (h p n hn)

theorem Within.node (h : t'.Within t) {p : Location} {n : Node α} (hn : t'.node p = some n) :
    t.node p = some n := by
  unfold FileTree.node at *
  split_ifs at * with hroot
  · exact hn
  · exact h p n hn

theorem Within.isDir (h : t'.Within t) {p : Location} (hp : t'.isDir p = true) : t.isDir p = true := by
  unfold FileTree.isDir at *
  cases hn : t'.node p with
  | none => simp [hn] at hp
  | some n =>
    rw [hn] at hp
    rw [h.node hn]
    exact hp

/-- What still resolves resolves as before. -/
theorem Within.walk (h : t'.Within t) {cur p : Location} {path : List Bytes} (hp : t'.walk cur path = some p) :
    t.walk cur path = some p := by
  induction path generalizing cur with
  | nil => exact hp
  | cons c rest ih =>
    simp only [FileTree.walk] at hp ⊢
    cases hdir : t'.isDir cur with
    | false => simp [hdir] at hp
    | true =>
      rw [hdir] at hp
      rw [h.isDir hdir]
      simp only [Bool.not_true, Bool.false_eq_true, if_false] at hp ⊢
      split_ifs at hp ⊢
      · exact ih hp
      · exact ih hp
      · exact ih hp

theorem Within.stat (h : t'.Within t) {path : List Bytes} {n : Node α} (hn : t'.stat path = some n) :
    t.stat path = some n := by
  obtain ⟨p, hresolve, hnode⟩ := Option.bind_eq_some_iff.mp hn
  exact Option.bind_eq_some_iff.mpr ⟨p, h.walk hresolve, h.node hnode⟩

/-- What can still be read was there before. -/
theorem Within.read (h : t'.Within t) {path : List Bytes} {content : α} (hread : t'.read path = some content) :
    t.read path = some content := by
  unfold FileTree.read at *
  cases hn : t'.stat path with
  | none => simp [hn] at hread
  | some n =>
    rw [hn] at hread
    rw [h.stat hn]
    exact hread

theorem within_erase (t : FileTree α) (p : Location) : Within ⟨t.nodes.erase p⟩ t := by
  intro q n hn
  rw [FMap.lookup_erase_eq] at hn
  split_ifs at hn
  exact hn

theorem within_remove {path : List Bytes} (hremove : t.remove path = some t') : t'.Within t := by
  unfold FileTree.remove at hremove
  cases hresolve : t.resolve path with
  | none => simp [hresolve] at hremove
  | some p =>
    rw [hresolve] at hremove
    cases hnode : t.node p with
    | none => simp [hnode] at hremove
    | some n =>
      cases n with
      | file content =>
        simp only [hnode] at hremove
        obtain rfl := Option.some.inj hremove
        exact t.within_erase p
      | dir =>
        simp only [hnode] at hremove
        split_ifs at hremove
        obtain rfl := Option.some.inj hremove
        exact t.within_erase p

theorem within_getD_remove (t : FileTree α) (path : List Bytes) : ((t.remove path).getD t).Within t := by
  cases hremove : t.remove path with
  | none => exact Within.refl t
  | some t' => exact within_remove hremove

/-- What was removed, or could not be, is no file any more. -/
theorem read_getD_remove (t : FileTree α) (path : List Bytes) : ((t.remove path).getD t).read path = none := by
  cases hread : t.read path with
  | none =>
    by_contra hsome
    obtain ⟨content, hcontent⟩ := Option.ne_none_iff_exists'.mp hsome
    exact absurd (hread.symm.trans ((t.within_getD_remove path).read hcontent)) nofun
  | some content =>
    unfold FileTree.read FileTree.stat at hread
    cases hresolve : t.resolve path with
    | none => simp [hresolve] at hread
    | some p =>
      rw [hresolve, Option.bind_some] at hread
      have hnode : ∃ c, t.node p = some (.file c) := by
        cases hn : t.node p with
        | none => simp [hn] at hread
        | some n =>
          cases n with
          | dir => simp [hn] at hread
          | file c => exact ⟨c, rfl⟩
      obtain ⟨c, hnode⟩ := hnode
      have hdir : t.isDir p = false := by
        unfold FileTree.isDir
        rw [hnode]
      have hremove : t.remove path = some ⟨t.nodes.erase p⟩ := by
        unfold FileTree.remove
        rw [hresolve]
        dsimp only
        rw [hnode]
      have hne : p ≠ [] := by
        rintro rfl
        simp [FileTree.isDir, FileTree.node] at hdir
      have hsame : FileTree.resolve ⟨t.nodes.erase p⟩ path = some p :=
        (walk_congr (isDir_erase hdir) [] path).trans hresolve
      simp [hremove, FileTree.read, FileTree.stat, hsame, FileTree.node, hne]

theorem within_removeAll (t : FileTree α) (path : List Bytes) : (t.removeAll path).Within t := by
  unfold FileTree.removeAll
  cases t.resolve path with
  | none => exact Within.refl t
  | some p => exact fun q n hn => FMap.lookup_of_filterKeys hn

end within

end FileTree

end Ces.Lib.Posix
