import Mathlib.Data.List.AList

namespace Peripherals.PersistJsonSettings

abbrev Text := List Char

abbrev JsonObject (Value : Type*) := AList fun _ : Text ↦ Value

variable {Value : Type*}

/-- How JSON objects are printed and parsed, and into which blocks `ToFile` parts a
text that it writes. -/
structure Format (Value : Type*) where
  toText : JsonObject Value → Text
  parse : Text → Option (JsonObject Value)
  blocks : Text → List Text

/-- The file call that comes next; `writing` has the blocks that are left, of which
there is one at least. -/
inductive Phase
  | opening | creatingMissing | reading | destroying | creating
  | writing (block : Text) (rest : List Text)
  | closing | syncing | finished

structure Process (Value : Type*) where
  phase : Phase
  disk : Option Text
  isOpen : Bool
  cecSetting : JsonObject Value

def Process.start (disk : Option Text) : Process Value := ⟨.opening, disk, false, ∅⟩

def Phase.toWrite : List Text → Phase
  | [] => .closing
  | block :: rest => .writing block rest

def fromFile (format : Format Value) (disk : Option Text) : JsonObject Value :=
  (disk.bind format.parse).getD ∅

/-- The next file call of `persistJsonSettings`, which works or fails, and what is done
with its result. -/
def step (format : Format Value) (strKey : Text) (jsValue : Value) (s : Process Value)
    (works : Bool) : Process Value :=
  match s.phase with
  | .opening =>
    if works && s.disk.isSome then { s with phase := .reading, isOpen := true }
    else { s with phase := .creatingMissing }
  | .creatingMissing =>
    if works then { s with phase := .reading, disk := some [], isOpen := true }
    else { s with phase := .reading }
  | .reading =>
    if works && s.isOpen then
      { s with phase := .destroying, cecSetting := fromFile format s.disk }
    else { s with phase := .destroying }
  | .destroying =>
    { s with phase := .creating, disk := if works then none else s.disk, isOpen := false }
  | .creating =>
    let cecSetting := s.cecSetting.insert strKey jsValue
    { phase := .toWrite (format.blocks (format.toText cecSetting))
      disk := if works then some [] else s.disk
      isOpen := works
      cecSetting }
  | .writing block rest =>
    if works && s.isOpen then { s with phase := .toWrite rest, disk := s.disk.map (· ++ block) }
    else { s with phase := .closing }
  | .closing => { s with phase := .syncing, isOpen := false }
  | .syncing | .finished => { s with phase := .finished }

/-- The state after file calls that work as told. -/
def run (format : Format Value) (strKey : Text) (jsValue : Value) (disk : Option Text)
    (calls : List Bool) : Process Value :=
  calls.foldl (step format strKey jsValue) (.start disk)

/-- The first `n` file calls work, and the `failed` ones after them fail. A process that
stops has no failed ones. -/
def interrupted (format : Format Value) (strKey : Text) (jsValue : Value) (disk : Option Text)
    (n failed : ℕ) : Process Value :=
  run format strKey jsValue disk (List.replicate n true ++ List.replicate failed false)

variable {format : Format Value} {strKey text written : Text} {jsValue : Value}
  {m : JsonObject Value} {s : Process Value} {rest : List Text} {n failed : ℕ}

/-- A failed call leaves the disk as it is. -/
theorem step_failed (s : Process Value) : (step format strKey jsValue s false).disk = s.disk := by
  unfold step
  split <;> rfl

theorem failed_disk (failed : ℕ) (s : Process Value) :
    ((List.replicate failed false).foldl (step format strKey jsValue) s).disk = s.disk := by
  induction failed generalizing s with
  | zero => rfl
  | succ failed ih => rw [List.replicate_succ, List.foldl_cons, ih, step_failed]

def Phase.Over (phase : Phase) : Prop := phase = .closing ∨ phase = .syncing ∨ phase = .finished

theorem step_over (format : Format Value) (strKey : Text) (jsValue : Value) (h : s.phase.Over) :
    (step format strKey jsValue s true).phase.Over ∧
      (step format strKey jsValue s true).disk = s.disk := by
  unfold step
  rcases h with h | h | h <;> rw [h]
  · exact ⟨.inr (.inl rfl), rfl⟩
  · exact ⟨.inr (.inr rfl), rfl⟩
  · exact ⟨.inr (.inr rfl), rfl⟩

theorem over_disk (n : ℕ) (h : s.phase.Over) :
    ((List.replicate n true).foldl (step format strKey jsValue) s).disk = s.disk := by
  induction n generalizing s with
  | zero => rfl
  | succ n ih =>
    obtain ⟨hover, hdisk⟩ := step_over format strKey jsValue h
    rw [List.replicate_succ, List.foldl_cons, ih hover, hdisk]

/-- After `n` more calls that work, `n` more blocks are in the file, or all of them. -/
theorem written_disk (n : ℕ) (hphase : s.phase = .toWrite rest) (hopen : s.isOpen = true)
    (hdisk : s.disk = some written) :
    ((List.replicate n true).foldl (step format strKey jsValue) s).disk =
      some (written ++ (rest.take n).flatten) := by
  induction n generalizing s rest written with
  | zero => simp [hdisk]
  | succ n ih =>
    cases rest with
    | nil => rw [over_disk (n + 1) (.inl hphase), hdisk, List.take_nil, List.flatten_nil,
        List.append_nil]
    | cons block rest =>
      have hstep : step format strKey jsValue s true =
          { s with phase := .toWrite rest, disk := some (written ++ block) } := by
        unfold step
        rw [hphase, Phase.toWrite]
        simp [hopen, hdisk]
      have hrest := ih (s := { s with phase := .toWrite rest, disk := some (written ++ block) })
        rfl hopen rfl
      rw [List.replicate_succ, List.foldl_cons, hstep, hrest, List.take_succ_cons,
        List.flatten_cons, List.append_assoc]

theorem interrupted_disk (n failed : ℕ) :
    (interrupted format strKey jsValue (some text) n failed).disk =
      ((List.replicate n true).foldl (step format strKey jsValue) (.start (some text))).disk := by
  rw [interrupted, run, List.foldl_append, failed_disk]

/-- The state once the file has been created again. -/
theorem created (hm : format.parse text = some m) :
    (List.replicate 4 true).foldl (step format strKey jsValue) (.start (some text)) =
      { phase := .toWrite (format.blocks (format.toText (m.insert strKey jsValue)))
        disk := some []
        isOpen := true
        cecSetting := m.insert strKey jsValue } := by
  simp [List.replicate, step, Process.start, fromFile, hm]

/-- Before the file is destroyed it is what it was, and from its creation on it holds
the blocks of the new text that have been written. -/
theorem interrupted_contents (hm : format.parse text = some m) (strKey : Text) (jsValue : Value)
    (n failed : ℕ) :
    (n ≤ 2 → (interrupted format strKey jsValue (some text) n failed).disk = some text) ∧
    (n = 3 → (interrupted format strKey jsValue (some text) n failed).disk = none) ∧
    ∀ i, n = 4 + i → (interrupted format strKey jsValue (some text) n failed).disk =
      some (((format.blocks (format.toText (m.insert strKey jsValue))).take i).flatten) := by
  rw [interrupted_disk]
  refine ⟨?_, ?_, ?_⟩
  · intro hn
    obtain rfl | rfl | rfl : n = 0 ∨ n = 1 ∨ n = 2 := by omega
    · rfl
    · rfl
    · rfl
  · intro hn
    subst hn
    rfl
  · intro i hn
    subst hn
    rw [← List.replicate_append_replicate, List.foldl_append, created hm,
      written_disk i rfl rfl rfl, List.nil_append]

def Holds (format : Format Value) (disk : Option Text) (m : JsonObject Value) : Prop :=
  ∃ text, disk = some text ∧ format.parse text = some m

section Flat

/-- Objects of strings that need no escape, written in one block. -/
def quoted (s : Text) : Text := '"' :: s ++ ['"']

def printMembers : List (Text × Text) → Text
  | [] => []
  | [(label, value)] => quoted label ++ ':' :: quoted value
  | (label, value) :: members => quoted label ++ ':' :: quoted value ++ ',' :: printMembers members

def parseQuoted : Text → Option (Text × Text)
  | '"' :: s => some (s.takeWhile (· ≠ '"'), (s.dropWhile (· ≠ '"')).drop 1)
  | _ => none

def parseMembers : ℕ → Text → Option (JsonObject Text)
  | 0, _ => none
  | fuel + 1, text => do
    let (label, text) ← parseQuoted text
    let (value, text) ← parseQuoted (text.drop 1)
    match text with
    | ['\x7d'] => some (AList.singleton label value)
    | ',' :: text => (parseMembers fuel text).map (·.insert label value)
    | _ => none

def flat : Format Text where
  toText m := '\x7b' :: printMembers (m.entries.map fun entry ↦ (entry.1, entry.2)) ++ ['\x7d']
  parse
    | '\x7b' :: text => parseMembers text.length text
    | _ => none
  blocks text := [text]

def twoSettings : JsonObject Text :=
  (AList.singleton ['b'] ['2']).insert ['a'] ['1']

end Flat

end Peripherals.PersistJsonSettings
