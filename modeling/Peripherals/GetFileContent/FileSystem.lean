import Peripherals.Lines

namespace Peripherals.GetFileContent

open Lines

abbrev Text := List Char

/-- `Utils::String::split(stringList, s, "/")` -/
def split (s : Text) : List Text :=
  foldLines '/' (fun stringList part ↦ stringList ++ [part]) [] [] s

variable {s part : Text} {path path' : List Text}

theorem foldLines_snoc (l l' : List Text) (line s : Text) :
    foldLines '/' (fun stringList part ↦ stringList ++ [part]) (l ++ l') line s =
      l ++ foldLines '/' (fun stringList part ↦ stringList ++ [part]) l' line s := by
  induction s generalizing l' line with
  | nil => simp [foldLines]
  | cons c s ih =>
    rw [foldLines, foldLines]
    split
    · rw [List.append_assoc]
      exact ih _ _
    · exact ih _ _

theorem split_of_not_mem (h : '/' ∉ part) : split part = [part] := by
  have happend := foldLines_append (f := fun stringList part ↦ stringList ++ [part])
    (s := ([] : List Text)) h [] []
  rw [List.append_nil] at happend
  exact happend

theorem split_append (h : '/' ∉ part) (s : Text) : split (part ++ '/' :: s) = part :: split s := by
  rw [split, foldLines_append h]
  exact foldLines_snoc [part] [] [] s

theorem foldLines_ne_nil (l : List Text) (line s : Text) :
    foldLines '/' (fun stringList part ↦ stringList ++ [part]) l line s ≠ [] := by
  induction s generalizing l line with
  | nil => simp [foldLines]
  | cons c s ih =>
    rw [foldLines]
    split
    · exact ih _ _
    · exact ih _ _

theorem split_ne_nil (s : Text) : split s ≠ [] := foldLines_ne_nil [] [] s

def NoSlash (path : List Text) : Prop := ∀ part ∈ path, '/' ∉ part

theorem noSlash_take (h : NoSlash path) (n : ℕ) : NoSlash (path.take n) :=
  fun part hpart ↦ h part (List.mem_of_mem_take hpart)

theorem noSlash_snoc (h : NoSlash path) (hpart : '/' ∉ part) : NoSlash (path ++ [part]) := by
  intro other hother
  rcases List.mem_append.mp hother with hother | hother
  · exact h other hother
  · rwa [List.mem_singleton.mp hother]

theorem noSlash_getD (h : NoSlash path) (n : ℕ) : '/' ∉ path.getD n [] := by
  rw [List.getD_eq_getElem?_getD]
  cases hn : path[n]? with
  | none => exact List.not_mem_nil
  | some part => exact h part (List.mem_of_getElem? hn)

theorem foldLines_noSlash {line : Text} (hpath : NoSlash path) (hline : '/' ∉ line) (s : Text) :
    NoSlash (foldLines '/' (fun stringList part ↦ stringList ++ [part]) path line s) := by
  induction s generalizing path line with
  | nil => exact noSlash_snoc hpath hline
  | cons c s ih =>
    rw [foldLines]
    split
    · exact ih (noSlash_snoc hpath hline) List.not_mem_nil
    next hc => exact ih hpath (by simp [hline, Ne.symm hc])

theorem split_noSlash (s : Text) : NoSlash (split s) :=
  foldLines_noSlash (fun _ h ↦ (List.not_mem_nil h).elim) List.not_mem_nil s

def pathOf (path : List Text) : Text := path.flatMap fun part ↦ '/' :: part

/-- The path of a directory, with a slash at its end. -/
def directoryPath (path : List Text) : Text := '/' :: path.flatMap fun part ↦ part ++ ['/']

theorem directoryPath_eq (path : List Text) : directoryPath path = pathOf path ++ ['/'] := by
  induction path with
  | nil => rfl
  | cons part path ih =>
    have hcons : directoryPath (part :: path) = '/' :: part ++ directoryPath path := by
      simp [directoryPath]
    rw [hcons, ih]
    simp [pathOf]

theorem directoryPath_append (path : List Text) (part : Text) :
    directoryPath path ++ part = pathOf (path ++ [part]) := by
  rw [directoryPath_eq]
  simp [pathOf]

theorem split_pathOf (h : NoSlash (part :: path)) :
    split (part ++ pathOf path) = part :: path := by
  induction path generalizing part with
  | nil =>
    rw [pathOf, List.flatMap_nil, List.append_nil]
    exact split_of_not_mem (h part List.mem_cons_self)
  | cons next path ih =>
    have hcons : part ++ pathOf (next :: path) = part ++ '/' :: (next ++ pathOf path) := rfl
    rw [hcons, split_append (h part List.mem_cons_self)]
    exact congrArg (part :: ·) (ih fun other ho ↦ h other (List.mem_cons_of_mem part ho))

theorem pathOf_injective (h : NoSlash path) (h' : NoSlash path')
    (heq : pathOf path = pathOf path') : path = path' := by
  cases path with
  | nil =>
    cases path' with
    | nil => rfl
    | cons => cases heq
  | cons part path =>
    cases path' with
    | nil => cases heq
    | cons part' path' =>
      rw [← split_pathOf h, ← split_pathOf h']
      exact congrArg split (List.cons.inj heq).2

/-- A file system with its directories as lists of names in the order of
`readdir`. A listed name may lead nowhere, as a dangling symbolic link does, and
the empty name stands for the directory itself, as at the end of a path with a
slash there. -/
structure FileSystem (N : Type) where
  root : N
  readdir : N → Option (List Text)
  lookup : N → Text → Option N
  nodup : ∀ {n names}, readdir n = some names → names.Nodup
  isName : ∀ {n names name}, readdir n = some names → name ∈ names → name ≠ [] ∧ '/' ∉ name
  itself : ∀ {n}, (readdir n).isSome = true → lookup n [] = some n
  directory : ∀ {n name}, (lookup n name).isSome = true → (readdir n).isSome = true

namespace FileSystem

variable {N : Type} (fs : FileSystem N)

def walk : N → List Text → Option N
  | n, [] => some n
  | n, name :: path => (fs.lookup n name).bind fun m ↦ walk m path

/-- The node at a path that starts with a slash. -/
def resolve : Text → Option N
  | '/' :: path => fs.walk fs.root (split path)
  | _ => none

def opendir (path : Text) : Option (List Text) := (fs.resolve path).bind fs.readdir

/-- `access(path, F_OK) == 0` -/
def access (path : Text) : Bool := (fs.resolve path).isSome

variable {fs}

theorem walk_append (n : N) (path path' : List Text) :
    fs.walk n (path ++ path') = (fs.walk n path).bind fun m ↦ fs.walk m path' := by
  induction path generalizing n with
  | nil => rfl
  | cons name path ih =>
    rw [List.cons_append, walk, walk]
    cases fs.lookup n name with
    | none => rfl
    | some m => exact ih m

theorem resolve_pathOf (hne : path ≠ []) (h : NoSlash path) :
    fs.resolve (pathOf path) = fs.walk fs.root path := by
  obtain ⟨part, path, rfl⟩ := List.exists_cons_of_ne_nil hne
  have hcons : pathOf (part :: path) = '/' :: (part ++ pathOf path) := rfl
  rw [hcons, resolve, split_pathOf h]

def names (fs : FileSystem N) (path : List Text) : Option (List Text) :=
  (fs.walk fs.root path).bind fs.readdir

theorem opendir_directoryPath (h : NoSlash path) :
    fs.opendir (directoryPath path) = fs.names path := by
  have hpath : directoryPath path = pathOf (path ++ [[]]) := by
    rw [← directoryPath_append, List.append_nil]
  have hnoslash : NoSlash (path ++ [[]]) := noSlash_snoc h List.not_mem_nil
  rw [opendir, names, hpath, resolve_pathOf (by simp) hnoslash, walk_append]
  cases fs.walk fs.root path with
  | none => rfl
  | some n =>
    simp only [Option.bind_some, walk]
    cases hdir : fs.readdir n with
    | some names => simp [fs.itself (n := n) (by simp [hdir]), hdir]
    | none =>
      have hnone : fs.lookup n [] = none := by
        by_contra hsome
        have hlookup := fs.directory (Option.ne_none_iff_isSome.mp hsome)
        simp [hdir] at hlookup
      simp [hnone]

def Exists (fs : FileSystem N) (path : List Text) : Prop :=
  (fs.walk fs.root path).isSome = true

theorem access_iff (hne : path ≠ []) (h : NoSlash path) :
    fs.access (pathOf path) = true ↔ fs.Exists path := by
  rw [access, resolve_pathOf hne h, Exists]

theorem Exists.shorter (h : fs.Exists (path ++ path')) : fs.Exists path := by
  by_contra hnone
  rw [Exists, Bool.not_eq_true, Option.isSome_eq_false_iff, Option.isNone_iff_eq_none] at hnone
  rw [Exists, walk_append, hnone] at h
  cases h

theorem exists_of_names {names : List Text} (hnames : fs.names path = some names) :
    fs.Exists path := by
  obtain ⟨n, hn, -⟩ := Option.bind_eq_some_iff.mp hnames
  rw [Exists, hn]
  rfl

theorem names_nodup {names : List Text} (hnames : fs.names path = some names) : names.Nodup := by
  obtain ⟨n, -, hdir⟩ := Option.bind_eq_some_iff.mp hnames
  exact fs.nodup hdir

theorem isName_of_mem {names : List Text} {name : Text} (hnames : fs.names path = some names)
    (hname : name ∈ names) : name ≠ [] ∧ '/' ∉ name := by
  obtain ⟨n, -, hdir⟩ := Option.bind_eq_some_iff.mp hnames
  exact fs.isName hdir hname

end FileSystem

end Peripherals.GetFileContent
