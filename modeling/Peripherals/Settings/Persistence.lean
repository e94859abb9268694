import Peripherals.Settings.RoundTrip

namespace Peripherals.Settings

open Lines Execution CSettings

/-- A call, with whether the file can be opened if it is there; or the file is
taken away. -/
inductive Action
  | setValue (key value : Text) (opens : Bool)
  | remove (key : Text) (opens : Bool)
  | contains (key : Text)
  | unlink

def perform (order : Variants) (s : CSettings) : Action → Bool × CSettings
  | .setValue key value opens => setValue order opens key value s
  | .remove key opens => remove order opens key s
  | .contains key => (s.contains key, s)
  | .unlink => (true, { s with file := none })

def step (order : Variants) (s : CSettings) (a : Action) : Option CSettings :=
  some (perform order s a).2

/-- The value that a call gives a key, where it has one; removing gives the
empty value. -/
def assigned (key : Text) : Action → Option Text
  | .setValue label value _ => if key = cStr label then some value else none
  | .remove label _ => if key = cStr label then some [] else none
  | _ => none

variable {order : Variants} {s s' : CSettings} {tr : List Action} {a : Action}
  {data : JsonObject} {key label value text : Text} {opens creates : Bool}

theorem writeToFile_string : (writeToFile order opens s).2.data.string key = s.data.string key := by
  unfold writeToFile
  split
  · rfl
  · split
    · exact writeLabels_string _ _
    · rfl

theorem remove_eq : remove order opens key s =
    writeToFile order opens { s with data := (s.data.insert (cStr key) []).erase (cStr key) } := by
  have hnot : CSettings.contains
      { s with data := (s.data.insert (cStr key) []).erase (cStr key) } key = false := by
    simp [contains_eq]
  simp [remove, hnot]

/-- Every call sets in memory what it assigns, whether it can write or not. -/
theorem step_string (hs : step order s a = some s') :
    s'.data.string key = (assigned key a).getD (s.data.string key) := by
  obtain rfl := Option.some.inj hs
  cases a with
  | setValue label value opens =>
    simp only [perform, setValue, writeToFile_string, string_insert, assigned]
    split <;> rfl
  | remove label opens =>
    simp only [perform, remove_eq, writeToFile_string, string_erase, string_insert, assigned]
    split <;> rfl
  | contains label => rfl
  | unlink => rfl

theorem run_string {s₀ : CSettings} (h : Run (step order) s₀ tr s) :
    s.data.string key = (latest (assigned key) tr).getD (s₀.data.string key) :=
  h.eq_latest (v := fun s ↦ s.data.string key) fun _ _ _ hs ↦ step_string hs

def written (order : Variants) (data : JsonObject) : Text :=
  (savedLines (order.labels data) data).flatMap (· ++ ['\n'])

/-- The file holds what is in memory, and can be read back line by line. -/
structure InStep (order : Variants) (s : CSettings) : Prop where
  file : s.file = some (written order s.data)
  writable : Writable s.data
  value : ∀ key, '=' ∉ s.data.string key

theorem Writable.insert (h : Writable data) (hk : nul ∉ key ∧ '\n' ∉ key) (hv : '\n' ∉ value) :
    Writable (data.insert key value) where
  whole label hl := by
    obtain rfl | hl := (AList.mem_insert _).mp hl
    · exact hk.1
    · exact h.whole label hl
  unbroken label hl := by
    obtain rfl | hl := (AList.mem_insert _).mp hl
    · exact hk.2
    · exact h.unbroken label hl
  value label := by
    rw [string_insert]
    split
    · exact hv
    · exact h.value label

theorem Writable.erase (h : Writable data) : Writable (data.erase key) where
  whole label hl := h.whole label (AList.mem_erase.mp hl).2
  unbroken label hl := h.unbroken label (AList.mem_erase.mp hl).2
  value label := by
    rw [string_erase]
    split
    · simp
    · exact h.value label

theorem writeToFile_inStep (h : Writable data) (hv : ∀ key, '=' ∉ data.string key) :
    InStep order (writeToFile order true { file := some text, data }).2 := by
  rw [writeToFile_eq h.whole]
  exact ⟨rfl, h, hv⟩

/-- The calls that the file can follow: it opens, keys have no NUL and no line
break, and values no `=` either. -/
def Action.Clean : Action → Prop
  | .setValue key value opens =>
    (nul ∉ key ∧ '\n' ∉ key) ∧ (nul ∉ value ∧ '\n' ∉ value ∧ '=' ∉ value) ∧ opens = true
  | .remove key opens => (nul ∉ key ∧ '\n' ∉ key) ∧ opens = true
  | .contains _ => True
  | .unlink => False

theorem step_inStep (hi : InStep order s) (ha : a.Clean) (hs : step order s a = some s') :
    InStep order s' := by
  obtain rfl := Option.some.inj hs
  obtain ⟨file, data⟩ := s
  obtain ⟨hfile, hw, hv⟩ := hi
  obtain rfl : file = some (written order data) := hfile
  cases a with
  | setValue label value opens =>
    obtain ⟨hlabel, ⟨-, hnewline, heq⟩, rfl⟩ := ha
    have hlabel' : nul ∉ cStr label ∧ '\n' ∉ cStr label := by
      rwa [cStr_of_not_mem hlabel.1]
    apply writeToFile_inStep (hw.insert hlabel' hnewline)
    intro key
    rw [string_insert]
    split
    · exact heq
    · exact hv key
  | remove label opens =>
    obtain ⟨hlabel, rfl⟩ := ha
    have hlabel' : nul ∉ cStr label ∧ '\n' ∉ cStr label := by
      rwa [cStr_of_not_mem hlabel.1]
    rw [perform, remove_eq]
    apply writeToFile_inStep (hw.insert hlabel' (by simp)).erase
    intro key
    rw [string_erase, string_insert]
    split
    · simp
    · exact hv key
  | contains label => exact ⟨rfl, hw, hv⟩
  | unlink => exact ha.elim

theorem construct_empty : construct (some []) true creates = { file := some [], data := ∅ } := rfl

theorem inStep_empty : InStep order { file := some [], data := ∅ } := by
  have hlabels : order.labels ∅ = [] := by simpa using order.perm ∅
  refine ⟨by simp [written, savedLines, hlabels], ⟨?_, ?_, ?_⟩, ?_⟩ <;>
    simp [JsonObject.string, AList.notMem_empty]

theorem run_inStep (h : Run (step order) (construct (some []) true creates) tr s)
    (hclean : ∀ a ∈ tr, a.Clean) : InStep order s :=
  h.invariant_of_forall hclean (construct_empty ▸ inStep_empty) fun _ _ _ hi ha hs ↦
    step_inStep hi ha hs

/-- A fresh object on a file in step contains what the running one does. -/
theorem InStep.construct_string (h : InStep order s) :
    (construct s.file true creates).data.string key = s.data.string key := by
  have hread : (construct s.file true creates).data = reread order [] s.data := by
    simp [construct, reread, writeToFile_eq h.writable.whole, readFromFile, h.file, written]
  rw [hread, JsonObject.string, lookup_reread h.writable h.value]
  split
  · rfl
  · simp_all

def savedEntries (order : Variants) (data : JsonObject) : List (Text × Text) :=
  ((order.labels data).filter fun label ↦ data.string label ≠ []).map fun label ↦
    (label, data.string label)

theorem written_eq :
    written order data = (savedEntries order data).flatMap fun e ↦ line e.1 e.2 ++ ['\n'] := by
  simp [written, savedLines, savedEntries, List.flatMap_map]

theorem savedEntries_nodup : ((savedEntries order data).map Prod.fst).Nodup := by
  have hlabels : (order.labels data).Nodup := (order.perm data).nodup_iff.mpr data.keys_nodup
  simpa [savedEntries, Function.comp_def] using hlabels.filter _

theorem mem_savedEntries :
    (key, value) ∈ savedEntries order data ↔ data.string key = value ∧ value ≠ [] := by
  have hmem : data.string key ≠ [] → key ∈ order.labels data := by
    intro hv
    by_contra hn
    rw [labels_mem, ← AList.lookup_eq_none] at hn
    exact hv (by simp [JsonObject.string, hn])
  simp only [savedEntries, List.mem_map, List.mem_filter, Prod.mk.injEq]
  refine ⟨?_, ?_⟩
  · intro h
    obtain ⟨label, ⟨-, hv⟩, hlabel, hvalue⟩ := h
    subst hlabel hvalue
    exact ⟨rfl, by simpa using hv⟩
  · intro h
    obtain ⟨hvalue, hv⟩ := h
    subst hvalue
    exact ⟨key, ⟨hmem hv, by simpa using hv⟩, rfl, rfl⟩

/-- The file has one line for each key that was last given a value other than
the empty one, and no other lines; a fresh object on it answers as `s` does. -/
structure Persisted (creates : Bool) (tr : List Action) (s : CSettings) : Prop where
  file : ∃ saved : List (Text × Text), (saved.map Prod.fst).Nodup ∧
    s.file = some (saved.flatMap fun e ↦ line e.1 e.2 ++ ['\n']) ∧
    ∀ key value, (key, value) ∈ saved ↔ latest (assigned key) tr = some value ∧ value ≠ []
  contains : ∀ key, (construct s.file true creates).contains key = s.contains key
  getValue : ∀ key, s.contains key = true →
    (construct s.file true creates).getValue key = s.getValue key

theorem run_persisted (h : Run (step order) (construct (some []) true creates) tr s)
    (hclean : ∀ a ∈ tr, a.Clean) : Persisted creates tr s := by
  have hi := run_inStep h hclean
  have hstring : ∀ key, s.data.string key = (latest (assigned key) tr).getD [] := fun key ↦
    run_string h
  refine ⟨⟨savedEntries order s.data, savedEntries_nodup, ?_, ?_⟩, ?_, ?_⟩
  · rw [hi.file, written_eq]
  · intro key value
    rw [mem_savedEntries, hstring]
    cases latest (assigned key) tr with
    | none => simp [eq_comm]
    | some last => simp
  · intro key
    simp only [contains_eq, hi.construct_string]
  · intro key _
    simp only [CSettings.getValue, hi.construct_string]

/-- A key with a `=` in it, an empty value, and a key that is removed again. -/
def someCalls : List Action :=
  [.setValue ['a', '=', 'b'] ['c'] true, .setValue ['d'] [] true, .contains ['d'],
    .setValue ['e'] ['f'] true, .remove ['e'] true]

theorem run_persisted_someCalls :
    ∃ s, Run (step asListed) (construct (some []) true true) someCalls s ∧
      Persisted true someCalls s := by
  obtain ⟨s, h⟩ : ∃ s, Run (step asListed) (construct (some []) true true) someCalls s :=
    exists_run rfl
  refine ⟨s, h, run_persisted h ?_⟩
  simp only [someCalls, List.forall_mem_cons, Action.Clean]
  exact ⟨by decide, by decide, trivial, by decide, by decide, by simp⟩

end Peripherals.Settings
