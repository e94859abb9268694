import Peripherals.Settings.Persistence

namespace Peripherals.Settings

open Lines Execution CSettings

/-- The entry that a call leaves a key in memory, `some none` for no entry;
`none` for a call that does not touch the key. -/
def entry (key : Text) : Action → Option (Option Text)
  | .setValue label value _ => if key = cStr label then some (some value) else none
  | .remove label _ => if key = cStr label then some none else none
  | _ => none

def Action.IsUpdate (a : Action) : Prop := ∃ key, (entry key a).isSome = true

def Action.saves : Action → Bool
  | .setValue _ _ opens => opens
  | .remove _ opens => opens
  | _ => false

variable {order : Variants} {s s' : CSettings} {tr : List Action} {a : Action}
  {data : JsonObject} {key label value text : Text} {file : Option Text} {opens creates : Bool}

theorem lookup_insert_eq : (data.insert label value).lookup key =
    if key = label then some value else data.lookup key := by
  by_cases h : key = label
  · subst h
    simp
  · simp [h, AList.lookup_insert_ne h]

theorem lookup_erase_eq : (data.erase label).lookup key =
    if key = label then none else data.lookup key := by
  by_cases h : key = label
  · subst h
    simp
  · simp [h, AList.lookup_erase_ne h]

def updated (data : JsonObject) : Action → JsonObject
  | .setValue label value _ => data.insert (cStr label) value
  | .remove label _ => (data.insert (cStr label) []).erase (cStr label)
  | _ => data

theorem perform_eq (ha : a.IsUpdate) :
    perform order s a = writeToFile order a.saves { s with data := updated s.data a } := by
  cases a with
  | setValue label value opens => rfl
  | remove label opens => exact remove_eq
  | contains label => simp [Action.IsUpdate, entry] at ha
  | unlink => simp [Action.IsUpdate, entry] at ha

theorem lookup_updated :
    (updated data a).lookup key = (entry key a).getD (data.lookup key) := by
  cases a with
  | setValue label value opens =>
    rw [updated, lookup_insert_eq, entry]
    split <;> rfl
  | remove label opens =>
    rw [updated, lookup_erase_eq, lookup_insert_eq, entry]
    split <;> rfl
  | contains label => rfl
  | unlink => rfl

theorem writeToFile_false (h : (writeToFile order opens s).1 = false) :
    (writeToFile order opens s).2 = s := by
  unfold writeToFile at h ⊢
  split
  · rfl
  · split
    · simp_all
    · rfl

/-- A failed update leaves the file alone and is not undone in memory. -/
theorem perform_false (ha : a.IsUpdate) (h : (perform order s a).1 = false) :
    (perform order s a).2.file = s.file ∧
      ∀ key, (perform order s a).2.data.lookup key = (entry key a).getD (s.data.lookup key) := by
  rw [perform_eq ha] at h ⊢
  rw [writeToFile_false h]
  exact ⟨rfl, fun _ ↦ lookup_updated⟩

def NulFree (data : JsonObject) : Prop := ∀ key ∈ data, nul ∉ key

theorem NulFree.updated (h : NulFree data) : NulFree (Settings.updated data a) := by
  intro key hkey
  rw [← AList.lookup_isSome, lookup_updated] at hkey
  cases he : entry key a with
  | none =>
    rw [he, Option.getD_none, AList.lookup_isSome] at hkey
    exact h key hkey
  | some e =>
    have hcut : ∃ label, key = cStr label := by
      cases a with
      | setValue label value opens => exact ⟨label, by simp [entry] at he; exact he.1⟩
      | remove label opens => exact ⟨label, by simp [entry] at he; exact he.1⟩
      | contains label => simp [entry] at he
      | unlink => simp [entry] at he
    obtain ⟨label, rfl⟩ := hcut
    exact nul_not_mem_cStr label

theorem writeToFile_cases (order : Variants) (opens : Bool) (h : NulFree s.data) :
    (writeToFile order opens s).2.data = s.data ∧
      ∀ text, (writeToFile order opens s).2.file = some text →
        ∃ text', s.file = some text' ∧ text = if opens then written order s.data else text' := by
  obtain ⟨file, data⟩ := s
  cases file with
  | none => exact ⟨rfl, by simp [writeToFile]⟩
  | some text =>
    cases opens with
    | false => exact ⟨rfl, by simp [writeToFile]⟩
    | true =>
      rw [writeToFile_eq h]
      exact ⟨rfl, by simp [written]⟩

/-- What one call does to memory and file. -/
theorem step_cases (h : NulFree s.data) (hs : step order s a = some s') :
    s'.data = updated s.data a ∧ ∀ text, s'.file = some text →
      ∃ text', s.file = some text' ∧ text = if a.saves then written order s'.data else text' := by
  obtain rfl := Option.some.inj hs
  by_cases ha : a.IsUpdate
  · rw [perform_eq ha]
    have hnul : NulFree { s with data := updated s.data a }.data := h.updated
    obtain ⟨hdata, hfile⟩ := writeToFile_cases order a.saves hnul
    rw [hdata]
    exact ⟨rfl, hfile⟩
  · cases a with
    | setValue label value opens => exact (ha ⟨cStr label, by simp [entry]⟩).elim
    | remove label opens => exact (ha ⟨cStr label, by simp [entry]⟩).elim
    | contains label => exact ⟨rfl, fun text htext ↦ ⟨text, htext, rfl⟩⟩
    | unlink => exact ⟨rfl, by simp [perform]⟩

/-- The settings that the text of the file stands for: it was printed from them, once a
call has succeeded; before that they are what the constructor has read from it. -/
def StandsFor (order : Variants) (tr : List Action) (text : Text) (saved : JsonObject) : Prop :=
  if tr.any Action.saves then text = written order saved
  else saved = foldLines '\n' readLine ∅ [] text

/-- A key of a call that could not open the file, and that no call since then has
written. -/
def Unsaved (key : Text) (tr : List Action) : Prop :=
  ∃ pre a post, tr = pre ++ a :: post ∧ (entry key a).isSome = true ∧
    ∀ b ∈ a :: post, b.saves = false

theorem Unsaved.snoc (h : Unsaved key tr) (ha : a.saves = false) : Unsaved key (tr ++ [a]) := by
  obtain ⟨pre, b, post, rfl, hb, hnot⟩ := h
  refine ⟨pre, b, post ++ [a], by simp, hb, ?_⟩
  intro c hc
  simp only [List.mem_cons, List.mem_append, List.not_mem_nil, or_false] at hc hnot
  obtain rfl | hc | rfl := hc
  · exact hnot c (.inl rfl)
  · exact hnot c (.inr hc)
  · exact ha

theorem construct_standsFor (h : (construct file true creates).file = some text) :
    StandsFor order [] text (construct file true creates).data := by
  cases file with
  | none =>
    cases creates with
    | false => simp [construct, readFromFile] at h
    | true =>
      obtain rfl : [] = text := by simpa [construct, readFromFile] using h
      rfl
  | some text' =>
    obtain rfl : text' = text := by simpa [construct, readFromFile] using h
    rfl

theorem construct_nulFree : NulFree (construct file true creates).data := by
  intro key hkey
  cases file with
  | none =>
    have hempty : (construct none true creates).data = ∅ := by cases creates <;> rfl
    rw [hempty] at hkey
    exact absurd hkey (AList.notMem_empty key)
  | some text => exact nul_not_mem_of_mem_foldLines hkey

/-- Memory and file part only in the keys of calls that failed since the file
was last written. -/
def Tracks (order : Variants) (tr : List Action) (s : CSettings) : Prop :=
  NulFree s.data ∧ ∀ text, s.file = some text →
    ∃ saved, StandsFor order tr text saved ∧
      ∀ key, ¬ Unsaved key tr → s.data.lookup key = saved.lookup key

theorem run_tracks (h : Run (step order) (construct file true creates) tr s) :
    Tracks order tr s := by
  apply h.history
  · refine ⟨construct_nulFree, ?_⟩
    intro text htext
    exact ⟨_, construct_standsFor htext, fun _ _ ↦ rfl⟩
  · intro tr s a s' _ ih hs
    obtain ⟨hnul, hfile⟩ := ih
    obtain ⟨hdata, hnew⟩ := step_cases hnul hs
    refine ⟨hdata ▸ hnul.updated, ?_⟩
    intro text htext
    obtain ⟨text', htext', ht⟩ := hnew text htext
    cases ha : a.saves with
    | true => exact ⟨s'.data, by simpa [StandsFor, ha] using ht, fun _ _ ↦ rfl⟩
    | false =>
      obtain ⟨saved, hstands, hsame⟩ := hfile text' htext'
      obtain rfl : text = text' := by simpa [ha] using ht
      refine ⟨saved, by simpa [StandsFor, ha] using hstands, ?_⟩
      intro key hkey
      have hentry : entry key a = none := by
        by_contra hn
        exact hkey ⟨tr, a, [], rfl, Option.isSome_iff_ne_none.mpr hn, by simpa using ha⟩
      rw [hdata, lookup_updated, hentry, Option.getD_none]
      exact hsame key fun hu ↦ hkey (hu.snoc ha)

theorem failed_update :
    (∀ s a, a.IsUpdate → (perform order s a).1 = false →
      (perform order s a).2.file = s.file ∧
        ∀ key, (perform order s a).2.data.lookup key =
          (entry key a).getD (s.data.lookup key)) ∧
    ∀ file creates tr s text, Run (step order) (construct file true creates) tr s →
      s.file = some text → ∃ saved, StandsFor order tr text saved ∧
        ∀ key, ¬ Unsaved key tr → s.data.lookup key = saved.lookup key := by
  refine ⟨?_, ?_⟩
  · intro s a ha h
    exact perform_false ha h
  · intro file creates tr s text h htext
    exact (run_tracks h).2 text htext

/-- The value stays in memory when the file cannot be opened. -/
theorem failed_setValue_remembered :
    ¬ ∀ (order : Variants) (tr : List Action) (s : CSettings) (a : Action),
      Run (step order) (construct (some []) true true) tr s → a.IsUpdate →
      (perform order s a).1 = false →
      (perform order s a).2.file = s.file ∧
        ∀ key, (perform order s a).2.data.lookup key = s.data.lookup key := by
  intro h
  have hk := (h asListed [] _ (.setValue ['k'] ['v'] false) .nil ⟨['k'], rfl⟩ rfl).2 ['k']
  exact absurd hk (by decide)

end Peripherals.Settings
