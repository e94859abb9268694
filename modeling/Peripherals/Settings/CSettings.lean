import Mathlib.Data.List.AList
import Mathlib.Data.List.TakeWhile
import Peripherals.Execution
import Peripherals.Lines

namespace Peripherals.Settings

open Lines

abbrev Text := List Char

def nul : Char := Char.ofNat 0

/-- What is left of a string that is passed on as a C string. -/
def cStr (s : Text) : Text := s.takeWhile (· ≠ nul)

/-- A JSON object by the `String()` of its values. -/
abbrev JsonObject := AList fun _ : Text ↦ Text

def JsonObject.string (data : JsonObject) (label : Text) : Text := (data.lookup label).getD []

/-- What `data[label]` leaves behind: a missing entry becomes an empty one. -/
def JsonObject.at (data : JsonObject) (label : Text) : JsonObject :=
  match data.lookup label with
  | some _ => data
  | none => data.insert label []

structure Variants where
  labels : JsonObject → List Text
  perm : ∀ data, (labels data).Perm data.keys

def line (key value : Text) : Text := key ++ '=' :: value

/-- The loop of `writeToFile` over the labels, of which each is used as a C string. -/
def writeLabels : List Text → JsonObject → Text → JsonObject × Text
  | [], data, ofile => (data, ofile)
  | label :: labels, data, ofile =>
    let data := data.at (cStr label)
    if data.string (cStr label) = [] then writeLabels labels data ofile
    else writeLabels labels data (ofile ++ line (cStr label) (data.string (cStr label)) ++ ['\n'])

structure CSettings where
  file : Option Text
  data : JsonObject

namespace CSettings

/-- `opens` tells whether a file that is there can be opened. -/
def writeToFile (order : Variants) (opens : Bool) (s : CSettings) : Bool × CSettings :=
  match s.file with
  | none => (false, s)
  | some _ =>
    if opens then
      let (data, ofile) := writeLabels (order.labels s.data) s.data []
      (true, { file := some ofile, data })
    else (false, s)

/-- What `readFromFile` does with the line that it has read into `content`. -/
def readLine (data : JsonObject) (content : Text) : JsonObject :=
  match lastIndexOf '=' content with
  | some pos => data.insert (cStr (content.take pos)) (content.drop (pos + 1))
  | none => data

def readFromFile (opens : Bool) (s : CSettings) : Bool × CSettings :=
  match s.file with
  | none => (false, s)
  | some text =>
    if opens then (true, { s with data := foldLines '\n' readLine s.data [] text })
    else (false, s)

/-- The constructor, with a file as it finds it; `creates` tells whether a file
that could not be read can be opened for appending. -/
def construct (file : Option Text) (opens creates : Bool) : CSettings :=
  let (status, s) := readFromFile opens { file, data := ∅ }
  if status then s
  else if creates then { s with file := some (s.file.getD []) }
  else s

def getValue (s : CSettings) (key : Text) : Text := s.data.string (cStr key)

def setValue (order : Variants) (opens : Bool) (key value : Text) (s : CSettings) :
    Bool × CSettings :=
  writeToFile order opens { s with data := s.data.insert (cStr key) value }

def contains (s : CSettings) (key : Text) : Bool :=
  match s.data.lookup (cStr key) with
  | some value => !value.isEmpty
  | none => false

def remove (order : Variants) (opens : Bool) (key : Text) (s : CSettings) : Bool × CSettings :=
  let s := { s with data := (s.data.insert (cStr key) []).erase (cStr key) }
  if s.contains key then (false, s) else writeToFile order opens s

end CSettings

theorem cStr_of_not_mem {s : Text} (h : nul ∉ s) : cStr s = s := by
  apply List.takeWhile_eq_self_iff.mpr
  intro c hc
  simpa using ne_of_mem_of_not_mem hc h

theorem nul_not_mem_cStr (s : Text) : nul ∉ cStr s := by
  intro h
  simpa using List.mem_takeWhile_imp h

theorem cStr_append {s : Text} (h : nul ∉ s) (t : Text) : cStr (s ++ t) = s ++ cStr t := by
  apply List.takeWhile_append_of_pos
  intro c hc
  simpa using ne_of_mem_of_not_mem hc h

variable {data : JsonObject} {key label value : Text}

@[simp] theorem string_insert :
    JsonObject.string (data.insert key value) label =
      if label = key then value else data.string label := by
  by_cases h : label = key
  · subst h
    simp [JsonObject.string]
  · simp [JsonObject.string, AList.lookup_insert_ne h, h]

@[simp] theorem string_erase :
    JsonObject.string (data.erase key) label = if label = key then [] else data.string label := by
  by_cases h : label = key
  · subst h
    simp [JsonObject.string]
  · simp [JsonObject.string, AList.lookup_erase_ne h, h]

@[simp] theorem string_at : (data.at key).string label = data.string label := by
  unfold JsonObject.at
  cases h : data.lookup key with
  | some _ => rfl
  | none =>
    by_cases hk : label = key
    · subst hk
      simp [JsonObject.string, h]
    · simp [hk]

theorem at_of_mem (h : key ∈ data) : data.at key = data := by
  obtain ⟨value, hv⟩ := Option.isSome_iff_exists.mp (AList.lookup_isSome.mpr h)
  simp [JsonObject.at, hv]

theorem contains_eq (s : CSettings) : s.contains key = !(s.data.string (cStr key)).isEmpty := by
  unfold CSettings.contains JsonObject.string
  cases s.data.lookup (cStr key) <;> rfl

def savedLines (labels : List Text) (data : JsonObject) : List Text :=
  (labels.filter fun label ↦ data.string label ≠ []).map fun label ↦
    line label (data.string label)

theorem writeLabels_string (labels : List Text) (ofile : Text) :
    (writeLabels labels data ofile).1.string key = data.string key := by
  induction labels generalizing data ofile with
  | nil => rfl
  | cons label labels ih =>
    simp only [writeLabels]
    split <;> simp [ih]

/-- Labels that are C strings and have an entry are written out, one line each. -/
theorem writeLabels_eq (labels : List Text) (hnul : ∀ label ∈ labels, nul ∉ label)
    (hmem : ∀ label ∈ labels, label ∈ data) (ofile : Text) :
    writeLabels labels data ofile =
      (data, ofile ++ (savedLines labels data).flatMap (· ++ ['\n'])) := by
  induction labels generalizing ofile with
  | nil => simp [writeLabels, savedLines]
  | cons label labels ih =>
    obtain ⟨hn, hnul⟩ := List.forall_mem_cons.mp hnul
    obtain ⟨hm, hmem⟩ := List.forall_mem_cons.mp hmem
    simp only [writeLabels, cStr_of_not_mem hn, at_of_mem hm]
    by_cases hv : data.string label = []
    · simp [hv, ih hnul hmem, savedLines]
    · simp [hv, ih hnul hmem, savedLines]

theorem readLine_line (h : '=' ∉ value) :
    CSettings.readLine data (line key value) = data.insert (cStr key) value := by
  simp [CSettings.readLine, line, lastIndexOf_append h]

@[simp] theorem readLine_nil : CSettings.readLine data [] = data := rfl

theorem newline_not_mem_savedLines (labels : List Text)
    (hkeys : ∀ label ∈ labels, '\n' ∉ label) (hvalues : ∀ label, '\n' ∉ data.string label) :
    ∀ l ∈ savedLines labels data, '\n' ∉ l := by
  intro l hl
  obtain ⟨label, hlabel, rfl⟩ := List.mem_map.mp hl
  simp [line, hkeys label (List.mem_filter.mp hlabel).1, hvalues label]

end Peripherals.Settings
