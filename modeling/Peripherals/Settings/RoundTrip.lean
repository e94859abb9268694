import Peripherals.Settings.CSettings

namespace Peripherals.Settings

open Lines CSettings

variable {order : Variants} {data start : JsonObject} {key label value text : Text}
  {labels : List Text}

theorem mem_readLine (l : Text) (h : key ∈ data) : key ∈ readLine data l := by
  unfold readLine
  split
  · exact (AList.mem_insert _).mpr (.inr h)
  · exact h

theorem mem_foldl_readLine {ls : List Text} (h : key ∈ start) : key ∈ ls.foldl readLine start := by
  induction ls generalizing start with
  | nil => exact h
  | cons l ls ih =>
    apply ih
    exact mem_readLine l h

/-- A label that a line sets in any object is there after the line has been read. -/
theorem mem_foldl_readLine_of_mem {ls : List Text} {l : Text} (hl : l ∈ ls)
    (h : ∀ data, key ∈ readLine data l) : key ∈ ls.foldl readLine start := by
  obtain ⟨l₁, l₂, rfl⟩ := List.append_of_mem hl
  rw [List.foldl_append, List.foldl_cons]
  apply mem_foldl_readLine
  exact h _

theorem nul_not_mem_of_mem_foldLines (h : key ∈ foldLines '\n' readLine ∅ [] text) :
    nul ∉ key := by
  refine foldLines_invariant (I := fun data : JsonObject ↦ ∀ key ∈ data, nul ∉ key)
    ?_ [] text ?_ key h
  · intro data l hdata key hkey
    unfold readLine at hkey
    split at hkey
    · obtain rfl | hkey := (AList.mem_insert _).mp hkey
      · exact nul_not_mem_cStr _
      · exact hdata key hkey
    · exact hdata key hkey
  · intro key hkey
    exact absurd hkey (AList.notMem_empty key)

/-- The lines of some labels set these labels that have a value, and no others. -/
theorem lookup_foldl_savedLines (hnul : ∀ label ∈ labels, nul ∉ label)
    (heq : ∀ label ∈ labels, '=' ∉ data.string label) :
    ((savedLines labels data).foldl readLine start).lookup key =
      if key ∈ labels ∧ data.string key ≠ [] then some (data.string key)
      else start.lookup key := by
  induction labels generalizing start with
  | nil => simp [savedLines]
  | cons label labels ih =>
    obtain ⟨hn, hnul⟩ := List.forall_mem_cons.mp hnul
    obtain ⟨he, heq⟩ := List.forall_mem_cons.mp heq
    by_cases hv : data.string label = []
    · have hsaved : savedLines (label :: labels) data = savedLines labels data := by
        simp [savedLines, hv]
      rw [hsaved, ih hnul heq]
      have hiff : (key ∈ labels ∧ data.string key ≠ []) ↔
          key ∈ label :: labels ∧ data.string key ≠ [] := by
        by_cases hk : key = label
        · simp [hk, hv]
        · simp [hk]
      simp only [hiff]
    · have hsaved : savedLines (label :: labels) data =
          line label (data.string label) :: savedLines labels data := by
        simp [savedLines, hv]
      rw [hsaved, List.foldl_cons, readLine_line he, cStr_of_not_mem hn, ih hnul heq]
      by_cases hk : key = label
      · subst hk
        simp [hv]
      · simp [hk, AList.lookup_insert_ne hk]

theorem labels_mem : label ∈ order.labels data ↔ label ∈ data :=
  ((order.perm data).mem_iff).trans AList.mem_keys.symm

/-- What `writeToFile` leaves in a file that it could open. -/
theorem writeToFile_eq (hnul : ∀ key ∈ data, nul ∉ key) :
    writeToFile order true { file := some text, data } =
      (true, { file := some ((savedLines (order.labels data) data).flatMap (· ++ ['\n'])),
               data }) := by
  have hlabels := writeLabels_eq (order.labels data)
    (fun label hl ↦ hnul label (labels_mem.mp hl)) (fun label hl ↦ labels_mem.mp hl) []
  simp [writeToFile, hlabels]

def reread (order : Variants) (text : Text) (data : JsonObject) : JsonObject :=
  (readFromFile true
    { file := (writeToFile order true { file := some text, data }).2.file, data := ∅ }).2.data

theorem nul_not_mem_of_mem_reread (h : key ∈ reread order text data) : nul ∉ key := by
  unfold reread readFromFile at h
  split at h
  · exact absurd h (AList.notMem_empty key)
  · exact nul_not_mem_of_mem_foldLines h

/-- Objects whose lines come back one by one: no key is cut, and no line broken. -/
structure Writable (data : JsonObject) : Prop where
  whole : ∀ key ∈ data, nul ∉ key
  unbroken : ∀ key ∈ data, '\n' ∉ key
  value : ∀ key, '\n' ∉ data.string key

theorem reread_eq (h : Writable data) :
    reread order text data = (savedLines (order.labels data) data).foldl readLine ∅ := by
  have hl := newline_not_mem_savedLines (order.labels data)
    (fun label hl ↦ h.unbroken label (labels_mem.mp hl)) h.value
  simp [reread, writeToFile_eq h.whole, readFromFile, foldLines_terminated hl]

theorem lookup_reread (h : Writable data) (heq : ∀ key, '=' ∉ data.string key) :
    (reread order text data).lookup key =
      if data.string key ≠ [] then some (data.string key) else none := by
  rw [reread_eq h, lookup_foldl_savedLines (fun label hl ↦ h.whole label (labels_mem.mp hl))
    (fun label _ ↦ heq label), AList.lookup_empty]
  by_cases hv : data.string key = []
  · simp [hv]
  · have hkey : key ∈ data := by
      by_contra hn
      exact hv (by simp [JsonObject.string, AList.lookup_eq_none.mpr hn])
    simp [hv, labels_mem, hkey]

theorem string_of_lookup (h : data.lookup key = some value) : data.string key = value := by
  simp [JsonObject.string, h]

/-- A value with a `=` comes back under a key that has one. -/
theorem exists_mem_reread (order : Variants) (text : Text) (h : Writable data)
    (hkey : key ∈ data) (heq : '=' ∈ data.string key) :
    ∃ label ∈ reread order text data, '=' ∈ label := by
  obtain ⟨v₁, v₂, hv, hv₂⟩ := eq_append_of_mem_last heq
  have hline : line (key ++ '=' :: v₁) v₂ ∈ savedLines (order.labels data) data := by
    refine List.mem_map.mpr ⟨key, ?_, by simp [line, hv]⟩
    simp [labels_mem, hkey, hv]
  refine ⟨cStr (key ++ '=' :: v₁), ?_, ?_⟩
  · rw [reread_eq h]
    apply mem_foldl_readLine_of_mem hline
    intro data
    rw [readLine_line hv₂]
    exact (AList.mem_insert _).mpr (.inl rfl)
  · rw [cStr_append (h.whole key hkey)]
    have hcut : cStr ('=' :: v₁) = '=' :: cStr v₁ := by
      rw [← List.singleton_append, cStr_append (by decide), List.singleton_append]
    simp [hcut]

/-- Keys with a NUL are cut, and values with a `=` are split at the wrong place. -/
theorem reread_eq_iff (hkeys : ∀ key ∈ data, '=' ∉ key ∧ '\n' ∉ key)
    (hvalues : ∀ key value, data.lookup key = some value → value ≠ [] ∧ '\n' ∉ value) :
    (∀ key, (reread order text data).lookup key = data.lookup key) ↔
      ∀ key value, data.lookup key = some value → nul ∉ key ∧ '=' ∉ value := by
  have hstring : ∀ key, '\n' ∉ data.string key := by
    intro key
    unfold JsonObject.string
    cases hv : data.lookup key with
    | none => simp
    | some value => exact (hvalues key value hv).2
  have hnewline : ∀ key ∈ data, '\n' ∉ key := fun key hkey ↦ (hkeys key hkey).2
  refine ⟨?_, ?_⟩
  · intro hround
    have hmem : ∀ key, key ∈ reread order text data ↔ key ∈ data := by
      intro key
      rw [← AList.lookup_isSome, hround, AList.lookup_isSome]
    have hnul : ∀ key ∈ data, nul ∉ key := fun key hkey ↦
      nul_not_mem_of_mem_reread ((hmem key).mpr hkey)
    intro key value hv
    have hkey : key ∈ data := AList.lookup_isSome.mp (by simp [hv])
    refine ⟨hnul key hkey, ?_⟩
    intro heq
    rw [← string_of_lookup hv] at heq
    obtain ⟨label, hlabel, hlabeleq⟩ :=
      exists_mem_reread order text ⟨hnul, hnewline, hstring⟩ hkey heq
    exact (hkeys label ((hmem label).mp hlabel)).1 hlabeleq
  · intro hall key
    have hnul : ∀ key ∈ data, nul ∉ key := by
      intro key hkey
      obtain ⟨value, hv⟩ := Option.isSome_iff_exists.mp (AList.lookup_isSome.mpr hkey)
      exact (hall key value hv).1
    have heq : ∀ key, '=' ∉ data.string key := by
      intro key
      unfold JsonObject.string
      cases hv : data.lookup key with
      | none => simp
      | some value => exact (hall key value hv).2
    rw [lookup_reread ⟨hnul, hnewline, hstring⟩ heq]
    cases hv : data.lookup key with
    | none => simp [JsonObject.string, hv]
    | some value => simp [JsonObject.string, hv, (hvalues key value hv).1]

def asListed : Variants where
  labels := AList.keys
  perm _ := .refl _

def oneSetting (value : Text) : JsonObject := AList.singleton ['k'] value

theorem oneSetting_lookup (h : (oneSetting value).lookup key = some label) :
    key = ['k'] ∧ label = value := by
  rw [oneSetting, ← AList.insert_empty] at h
  by_cases hk : key = ['k']
  · subst hk
    rw [AList.lookup_insert] at h
    exact ⟨rfl, (Option.some.inj h).symm⟩
  · rw [AList.lookup_insert_ne hk, AList.lookup_empty] at h
    cases h

theorem mem_oneSetting {key value : Text} (h : key ∈ oneSetting value) : key = ['k'] := by
  simpa [oneSetting, AList.mem_keys] using h

theorem reread_eq_iff_oneSetting :
    (∀ key, (reread asListed [] (oneSetting ['v'])).lookup key =
      (oneSetting ['v']).lookup key) ↔
      ∀ key value, (oneSetting ['v']).lookup key = some value → nul ∉ key ∧ '=' ∉ value := by
  apply reread_eq_iff
  · intro key hkey
    obtain rfl := mem_oneSetting hkey
    decide
  · intro key value hv
    obtain ⟨-, rfl⟩ := oneSetting_lookup hv
    decide

/-- A value `a=b` is read back as the value `b` of another key. -/
theorem reread_of_eq_in_value :
    ¬ ∀ (order : Variants) (text : Text) (data : JsonObject),
      (∀ key ∈ data, '=' ∉ key ∧ '\n' ∉ key) →
      (∀ key value, data.lookup key = some value → value ≠ [] ∧ '\n' ∉ value) →
      ∀ key, (reread order text data).lookup key = data.lookup key := by
  intro h
  have hk := h asListed [] (oneSetting ['a', '=', 'b']) ?_ ?_ ['k']
  · exact absurd hk (by decide)
  · intro key hkey
    obtain rfl := mem_oneSetting hkey
    decide
  · intro key value hv
    obtain ⟨-, rfl⟩ := oneSetting_lookup hv
    decide

end Peripherals.Settings
