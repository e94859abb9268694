import Mathlib.Data.List.DropRight
import Peripherals.GetFileContent.Property

namespace Peripherals.UtilsFile

open GetFileContent

def getLastLine (input resStr : List Char) : Bool × List Char :=
  if input ≠ [] then
    (lines input).foldl (fun r readLine ↦ if readLine ≠ [] then (true, readLine) else r)
      (false, resStr)
  else (false, resStr)

section LastRun

variable {A : Type*} {p q : A → Bool} {l run : List A} {a : A}

structure IsLastRun (p : A → Bool) (l run : List A) : Prop where
  ne_nil : run ≠ []
  all : ∀ a ∈ run, p a = true
  maximal : ∃ before after, l = before ++ run ++ after ∧ (∀ a ∈ after, p a = false) ∧
    ∀ a, before.getLast? = some a → p a = false

theorem exists_lastRun (h : ∃ a ∈ l, p a = true) : ∃ run, IsLastRun p l run := by
  induction l using List.reverseRecOn with
  | nil => simp at h
  | append_singleton l b ih =>
    cases hb : p b with
    | true =>
      have hsplit : l.rdropWhile p ++ l.rtakeWhile p = l := List.rdropWhile_append_rtakeWhile ..
      refine ⟨l.rtakeWhile p ++ [b], by simp, ?_, l.rdropWhile p, [], ?_, by simp, ?_⟩
      · intro a ha
        rcases List.mem_append.mp ha with ha | ha
        · exact List.mem_rtakeWhile_imp ha
        · rwa [List.mem_singleton.mp ha]
      · rw [List.append_nil, ← List.append_assoc, hsplit]
      · intro a ha
        have hne : l.rdropWhile p ≠ [] := by
          intro hnil
          simp [hnil] at ha
        have hnot := List.rdropWhile_last_not p l hne
        rw [List.getLast?_eq_some_getLast hne] at ha
        simpa [Option.some.inj ha] using hnot
    | false =>
      have hl : ∃ a ∈ l, p a = true := by
        obtain ⟨a, ha, hpa⟩ := h
        rcases List.mem_append.mp ha with ha | ha
        · exact ⟨a, ha, hpa⟩
        · rw [List.mem_singleton.mp ha, hb] at hpa
          cases hpa
      obtain ⟨run, hne, hall, before, after, rfl, hafter, hbefore⟩ := ih hl
      refine ⟨run, hne, hall, before, after ++ [b], (List.append_assoc _ _ _), ?_, hbefore⟩
      intro a ha
      rcases List.mem_append.mp ha with ha | ha
      · exact hafter a ha
      · rwa [List.mem_singleton.mp ha]

theorem IsLastRun.exists_mem (h : IsLastRun p l run) : ∃ a ∈ run, a ∈ l ∧ p a = true := by
  obtain ⟨hne, hall, before, after, rfl, -, -⟩ := h
  obtain ⟨a, run, rfl⟩ := List.exists_cons_of_ne_nil hne
  exact ⟨a, List.mem_cons_self, by simp, hall a List.mem_cons_self⟩

/-- A run is the last one for a stronger property if nothing in it fails the
stronger property. -/
theorem IsLastRun.strengthen (h : IsLastRun p l run) (hq : ∀ a, q a = true → p a = true)
    (hrun : ∀ a ∈ run, q a = true) : IsLastRun q l run := by
  obtain ⟨hne, -, before, after, hl, hafter, hbefore⟩ := h
  have hweaken {a : A} (ha : p a = false) : q a = false := by
    cases hqa : q a with
    | false => rfl
    | true => simp [hq a hqa] at ha
  exact ⟨hne, hrun, before, after, hl, fun a ha ↦ hweaken (hafter a ha),
    fun a ha ↦ hweaken (hbefore a ha)⟩

end LastRun

variable {input resStr line before after : List Char} {r : Bool × List Char}

theorem lines_blank (h : ∀ c ∈ after, c = '\n') : ∀ line ∈ lines after, line = [] := by
  induction after with
  | nil => simp [lines]
  | cons c after ih =>
    obtain ⟨rfl, hafter⟩ := List.forall_mem_cons.mp h
    rw [lines, if_pos rfl]
    exact List.forall_mem_cons.mpr ⟨rfl, ih hafter⟩

/-- The lines end with the last run, up to empty ones. -/
theorem lines_of_isLastRun {run : List Char} (h : IsLastRun (· ≠ '\n') input run) :
    ∃ first blank, lines input = first ++ run :: blank ∧ ∀ line ∈ blank, line = [] := by
  obtain ⟨hne, hall, before, after, rfl, hafter, hbefore⟩ := h
  have hrun : '\n' ∉ run := fun hmem ↦ by simpa using hall '\n' hmem
  obtain ⟨first, hfirst⟩ : ∃ first, ∀ s, lines (before ++ s) = first ++ lines s := by
    rcases List.eq_nil_or_concat before with rfl | ⟨start, c, rfl⟩
    · exact ⟨[], fun _ ↦ rfl⟩
    · obtain rfl : c = '\n' := by simpa using hbefore c (by simp)
      refine ⟨lines (start ++ ['\n']), fun s ↦ ?_⟩
      rw [List.concat_eq_append, List.append_assoc]
      exact lines_append start s
  rw [List.append_assoc, hfirst]
  cases after with
  | nil =>
    refine ⟨first, [], ?_, by simp⟩
    rw [List.append_nil, lines_of_not_mem hne hrun]
  | cons c after =>
    obtain ⟨hc, hblank⟩ := List.forall_mem_cons.mp hafter
    obtain rfl : c = '\n' := by simpa using hc
    refine ⟨first, lines after, ?_, lines_blank fun c hc ↦ by simpa using hblank c hc⟩
    rw [lines_append, lines_ended hrun]
    rfl

theorem foldl_blank {ls : List (List Char)} (h : ∀ line ∈ ls, line = []) (r : Bool × List Char) :
    ls.foldl (fun r readLine ↦ if readLine ≠ [] then (true, readLine) else r) r = r := by
  induction ls with
  | nil => rfl
  | cons line ls ih =>
    obtain ⟨rfl, hrest⟩ := List.forall_mem_cons.mp h
    exact ih hrest

theorem getLastLine_of_isLastRun {run : List Char} (h : IsLastRun (· ≠ '\n') input run) :
    getLastLine input resStr = (true, run) := by
  obtain ⟨first, blank, hlines, hblank⟩ := lines_of_isLastRun h
  have hinput : input ≠ [] := by
    intro hnil
    simp [hnil, lines] at hlines
  rw [getLastLine, if_pos hinput, hlines, List.foldl_append, List.foldl_cons, foldl_blank hblank,
    if_pos h.ne_nil]

theorem getLastLine_blank (h : ∀ c ∈ input, c = '\n') :
    getLastLine input resStr = (false, resStr) := by
  unfold getLastLine
  split
  · exact foldl_blank (lines_blank h) _
  · rfl

/-- A run of characters that are no line breaks is found if there is one, and it is the last. -/
structure MeetsReference (input : List Char) (r : Bool × List Char) : Prop where
  found : r.1 = true ↔ ∃ c ∈ input, c ≠ '\r' ∧ c ≠ '\n'
  last : r.1 = true → IsLastRun (fun c ↦ c ≠ '\r' && c ≠ '\n') input r.2

/-- The reference is met if and only if the last run of characters that are no LF has no CR. -/
theorem getLastLine_meets_iff (input resStr : List Char) :
    MeetsReference input (getLastLine input resStr) ↔
      ∀ run, IsLastRun (· ≠ '\n') input run → '\r' ∉ run := by
  by_cases hline : ∃ c ∈ input, c ≠ '\n'
  · obtain ⟨run, hrun⟩ : ∃ run, IsLastRun (· ≠ '\n') input run :=
      exists_lastRun (by simpa using hline)
    have hresult : getLastLine input resStr = (true, run) := getLastLine_of_isLastRun hrun
    rw [hresult]
    refine ⟨?_, ?_⟩
    · intro h run' hrun' hcr
      obtain rfl : run = run' :=
        (Prod.mk.inj (hresult.symm.trans (getLastLine_of_isLastRun hrun'))).2
      have hnot := (h.last rfl).all '\r' hcr
      simp at hnot
    · intro h
      have hcr := h run hrun
      have hboth : ∀ c ∈ run, (c ≠ '\r' && c ≠ '\n') = true := by
        intro c hc
        have hne : c ≠ '\r' := fun heq ↦ hcr (heq ▸ hc)
        simpa [hne] using hrun.all c hc
      refine ⟨iff_of_true rfl ?_, fun _ ↦ hrun.strengthen (by simp) hboth⟩
      obtain ⟨c, hc, hmem, -⟩ := hrun.exists_mem
      exact ⟨c, hmem, by simpa using hboth c hc⟩
  · have hblank : ∀ c ∈ input, c = '\n' := by simpa using hline
    rw [getLastLine_blank hblank]
    refine iff_of_true ⟨iff_of_false (by simp) ?_, fun h ↦ by cases h⟩ ?_
    · intro h
      obtain ⟨c, hc, -, hne⟩ := h
      exact hne (hblank c hc)
    · intro run hrun
      obtain ⟨c, -, hc, hne⟩ := hrun.exists_mem
      simp [hblank c hc] at hne

/-- Before a CR LF the CR is taken for a part of the line. -/
theorem carriage_return_kept : ¬ ∀ input resStr : List Char,
    MeetsReference input (getLastLine input resStr) := by
  intro h
  have hlast := (h "a\r\n".toList []).last (by decide)
  have hcr := hlast.all '\r' (by decide)
  simp at hcr

end Peripherals.UtilsFile
