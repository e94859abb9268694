import Peripherals.Settings.Persistence

namespace Peripherals.Settings

open Lines Execution CSettings

variable {order : Variants} {s : CSettings} {tr : List Action} {data start : JsonObject}
  {key label value torn : Text} {creates : Bool} {n : ℕ}

def savedLabels (order : Variants) (data : JsonObject) : List Text :=
  (order.labels data).filter fun label ↦ data.string label ≠ []

theorem mem_savedLabels : label ∈ savedLabels order data ↔ data.string label ≠ [] := by
  simp only [savedLabels, List.mem_filter, labels_mem, decide_eq_true_eq, and_iff_right_iff_imp]
  intro hv
  by_contra hn
  exact hv (by simp [JsonObject.string, AList.lookup_eq_none.mpr hn])

theorem savedLabels_nodup : (savedLabels order data).Nodup :=
  (((order.perm data).nodup_iff.mpr data.keys_nodup).filter _)

theorem written_eq_labels : written order data =
    (savedLabels order data).flatMap fun label ↦ line label (data.string label) ++ ['\n'] := by
  simp [written, savedLines, savedLabels, List.flatMap_map]

/-- A part of a line sets its key to what it has of the value, if it gets that far. -/
theorem readLine_torn (hkey : nul ∉ label ∧ '=' ∉ label) (hvalue : '=' ∉ value)
    (htorn : torn <+: line label value) (hnone : data.string label = []) :
    (readLine data torn).string key =
      if key = label then torn.drop (label.length + 1) else data.string key := by
  obtain ⟨hnul, heq⟩ := hkey
  have htake : torn = (line label value).take torn.length := List.prefix_iff_eq_take.mp htorn
  by_cases hle : torn.length ≤ label.length
  · have hpart : torn <+: label := by
      rw [htake, line, List.take_append_of_le_length hle]
      exact List.take_prefix _ _
    have hnot : lastIndexOf '=' torn = none :=
      lastIndexOf_eq_none.mpr fun hmem ↦ heq (hpart.mem hmem)
    have hread : readLine data torn = data := by
      rw [readLine, hnot]
    rw [hread, List.drop_eq_nil_of_le (by omega)]
    split
    next hk => rw [hk, hnone]
    · rfl
  · obtain ⟨v, rfl, hv⟩ : ∃ v, torn = line label v ∧ v <+: value := by
      refine ⟨value.take (torn.length - (label.length + 1)), ?_, List.take_prefix _ _⟩
      have hlen : torn.length - label.length = torn.length - (label.length + 1) + 1 := by omega
      conv_lhs => rw [htake, line, List.take_append, List.take_of_length_le (by omega), hlen,
        List.take_succ_cons]
      rfl
    have hdrop : (line label v).drop (label.length + 1) = v := by
      simp [line, List.drop_append]
    rw [readLine_line fun hmem ↦ hvalue (hv.mem hmem), cStr_of_not_mem hnul, string_insert, hdrop]

theorem savedLines_of_saved {labels : List Text} (h : ∀ label ∈ labels, data.string label ≠ []) :
    savedLines labels data = labels.map fun label ↦ line label (data.string label) := by
  rw [savedLines, List.filter_eq_self.mpr]
  simpa using h

theorem InStep.saved_string {labels : List Text} (h : InStep order s)
    (hsaved : ∀ label ∈ labels, label ∈ s.data ∧ s.data.string label ≠ []) (key : Text) :
    JsonObject.string ((savedLines labels s.data).foldl readLine ∅) key =
      if key ∈ labels then s.data.string key else [] := by
  rw [JsonObject.string, lookup_foldl_savedLines
    (fun label hmem ↦ h.writable.whole label (hsaved label hmem).1)
    (fun label _ ↦ h.value label), AList.lookup_empty]
  by_cases hk : key ∈ labels
  · simp [hk, (hsaved key hk).2]
  · simp [hk]

theorem InStep.unbroken_line {label : Text} (h : InStep order s) (hmem : label ∈ s.data) :
    '\n' ∉ line label (s.data.string label) := by
  simp [line, h.writable.unbroken label hmem, h.writable.value label]

/-- What a fresh object reads where the write of what is in memory was cut off. -/
theorem InStep.torn_string (h : InStep order s)
    (hkeys : ∀ key, s.data.string key ≠ [] → '=' ∉ key) (creates : Bool) (n : ℕ) :
    ∃ done lost torn, savedLabels order s.data = done ++ lost ∧
      (written order s.data).take n =
        (done.flatMap fun label ↦ line label (s.data.string label) ++ ['\n']) ++ torn ∧
      torn <+: (lost.head?.map fun label ↦ line label (s.data.string label)).getD [] ∧
      ∀ key, (construct (some ((written order s.data).take n)) true creates).data.string key =
        if key ∈ done then s.data.string key
        else if lost.head? = some key then torn.drop (key.length + 1)
        else [] := by
  obtain ⟨done, lost, torn, hlabels, htake, hprefix⟩ := take_terminated
    (fun label ↦ line label (s.data.string label)) '\n' (savedLabels order s.data) n
  rw [← written_eq_labels] at htake
  refine ⟨done, lost, torn, hlabels, htake, hprefix, fun key ↦ ?_⟩
  have hsaved : ∀ label ∈ done ++ lost, label ∈ s.data ∧ s.data.string label ≠ [] := by
    intro label hmem
    rw [← hlabels] at hmem
    exact ⟨labels_mem.mp (List.mem_filter.mp hmem).1, mem_savedLabels.mp hmem⟩
  have hlines : ∀ l ∈ done.map (fun label ↦ line label (s.data.string label)), '\n' ∉ l := by
    intro l hl
    obtain ⟨label, hmem, rfl⟩ := List.mem_map.mp hl
    exact h.unbroken_line (hsaved label (List.mem_append_left _ hmem)).1
  have htorn : '\n' ∉ torn := by
    intro hmem
    have hin := hprefix.mem hmem
    cases hlost : lost with
    | nil => simp [hlost] at hin
    | cons label rest =>
      rw [hlost] at hin
      exact h.unbroken_line (hsaved label (by simp [hlost])).1 hin
  have hread : (construct (some ((written order s.data).take n)) true creates).data =
      readLine ((savedLines done s.data).foldl readLine ∅) torn := by
    rw [htake, savedLines_of_saved fun label hmem ↦ (hsaved label (List.mem_append_left _ hmem)).2,
      ← foldLines_torn (f := readLine) (s := (∅ : JsonObject)) hlines htorn, List.flatMap_map]
    rfl
  have hdone := h.saved_string fun label hmem ↦ hsaved label (List.mem_append_left lost hmem)
  rw [hread]
  cases lost with
  | nil =>
    obtain rfl : torn = [] := by simpa using hprefix
    rw [readLine_nil, hdone]
    simp
  | cons label rest =>
    obtain ⟨hlabel, hvalue⟩ := hsaved label (by simp)
    have hnot : label ∉ done := by
      have hnodup : (savedLabels order s.data).Nodup := savedLabels_nodup
      rw [hlabels] at hnodup
      exact fun hmem ↦ (List.nodup_append.mp hnodup).2.2 label hmem label List.mem_cons_self rfl
    rw [readLine_torn ⟨h.writable.whole label hlabel, hkeys label hvalue⟩ (h.value label) hprefix
      (by rw [hdone, if_neg hnot]), hdone]
    by_cases hk : key = label
    · subst hk
      simp [hnot]
    · simp [hk, Ne.symm hk]

def lastSet (tr : List Action) (key : Text) : Text := (latest (assigned key) tr).getD []

/-- Of the lines that the calls of `tr` have made up, those for `done` are `left`, and
`torn` of the one for the first of `lost`. -/
structure Cut (tr : List Action) (done lost : List Text) (torn left : Text) : Prop where
  nodup : (done ++ lost).Nodup
  labels : ∀ key, key ∈ done ++ lost ↔ lastSet tr key ≠ []
  left : left = (done.flatMap fun label ↦ line label (lastSet tr label) ++ ['\n']) ++ torn
  torn : torn <+: (lost.head?.map fun label ↦ line label (lastSet tr label)).getD []

theorem assigned_of_lastSet (h : lastSet tr key ≠ []) :
    ∃ label value opens, .setValue label value opens ∈ tr ∧ key = cStr label := by
  unfold lastSet at h
  cases hlatest : latest (assigned key) tr with
  | none => simp [hlatest] at h
  | some value =>
    rw [hlatest, Option.getD_some] at h
    obtain ⟨pre, a, post, rfl, ha, -⟩ := latest_eq_some.mp hlatest
    cases a with
    | setValue label value' opens =>
      simp only [assigned, Option.ite_none_right_eq_some] at ha
      exact ⟨label, value', opens, by simp, ha.1⟩
    | remove label opens =>
      simp only [assigned, Option.ite_none_right_eq_some, Option.some.injEq] at ha
      exact (h ha.2.symm).elim
    | contains label => cases ha
    | unlink => cases ha

/-- A call whose write is cut off after `n` characters: a fresh object finds some keys as
they were set last and a part of that for one more key, and the other keys are lost,
whether the call was about them or not. -/
theorem torn_write (h : Run (step order) (construct (some []) true creates) tr s)
    (hclean : ∀ a ∈ tr, a.Clean)
    (hkeys : ∀ key value opens, .setValue key value opens ∈ tr → '=' ∉ key) (n : ℕ) :
    ∃ text done lost torn, s.file = some text ∧ Cut tr done lost torn (text.take n) ∧
      ∀ key, (construct (some (text.take n)) true creates).data.string key =
        if key ∈ done then lastSet tr key
        else if lost.head? = some key then torn.drop (key.length + 1)
        else [] := by
  have hinStep := run_inStep h hclean
  have hstring : s.data.string = lastSet tr := funext fun key ↦ run_string h
  have hunsplit : ∀ key, s.data.string key ≠ [] → '=' ∉ key := by
    intro key hkey
    rw [hstring] at hkey
    obtain ⟨label, value, opens, hmem, rfl⟩ := assigned_of_lastSet hkey
    exact fun heq ↦ hkeys label value opens hmem ((List.takeWhile_prefix _).mem heq)
  obtain ⟨done, lost, torn, hlabels, hleft, htorn, hread⟩ :=
    hinStep.torn_string hunsplit creates n
  rw [hstring] at hleft htorn hread
  refine ⟨_, done, lost, torn, hinStep.file, ⟨?_, ?_, hleft, htorn⟩, hread⟩
  · rw [← hlabels]
    exact savedLabels_nodup
  · intro key
    rw [← hlabels, mem_savedLabels, hstring]

/-- Two settings, of which the write of the second is cut off. -/
theorem torn_write_twoSettings : ∃ s, Run (step asListed) (construct (some []) true true)
      [.setValue ['a'] ['b', 'c'] true, .setValue ['d'] ['e'] true] s ∧
    ∃ text done lost torn, s.file = some text ∧
      Cut [.setValue ['a'] ['b', 'c'] true, .setValue ['d'] ['e'] true] done lost torn
        (text.take 7) ∧
      ∀ key, (construct (some (text.take 7)) true true).data.string key =
        if key ∈ done then
          lastSet [.setValue ['a'] ['b', 'c'] true, .setValue ['d'] ['e'] true] key
        else if lost.head? = some key then torn.drop (key.length + 1)
        else [] := by
  obtain ⟨s, h⟩ : ∃ s, Run (step asListed) (construct (some []) true true)
      [.setValue ['a'] ['b', 'c'] true, .setValue ['d'] ['e'] true] s := exists_run rfl
  refine ⟨s, h, torn_write h ?_ ?_ 7⟩
  · simp only [List.forall_mem_cons, Action.Clean]
    exact ⟨by decide, by decide, by simp⟩
  · intro key value opens hmem
    simp only [List.mem_cons, Action.setValue.injEq, List.not_mem_nil, or_false] at hmem
    rcases hmem with ⟨rfl, -, -⟩ | ⟨rfl, -, -⟩
    · decide
    · decide

end Peripherals.Settings
