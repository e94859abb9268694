import Peripherals.Fgets
import Peripherals.FrontPanel.Device
import Peripherals.GetFileContent.Definition
import Peripherals.Settings.CSettings

namespace Peripherals.SearchRdkProfile

open Fgets GetFileContent
open FrontPanel (Profile)
open Settings (nul cStr)

def rdkProfileKey : Text := "RDK_PROFILE=".toList

def rdkProfileName : Text := "RDK_PROFILE".toList

def profileTv : Text := "TV".toList

def profileStb : Text := "STB".toList

/-- The rest of a string from the first occurrence of `needle` on. -/
def strstr (needle : Text) : Text → Option Text
  | [] => if needle <+: [] then some [] else none
  | c :: s => if needle <+: c :: s then some (c :: s) else strstr needle s

/-- What a C string says after its first `RDK_PROFILE=`. -/
def rdkProfileIn (line : Text) : Option Text :=
  (strstr rdkProfileKey (cStr line)).map (·.drop rdkProfileKey.length)

/-- The body of the loop, which breaks where `rdkProfile` is not `NULL`. -/
def searchLine (_ : Option Text) (line : Text) : Option Text × Bool :=
  (rdkProfileIn line, (rdkProfileIn line).isSome)

def profileOf (rdkProfile : Text) : Profile :=
  if profileTv <+: rdkProfile then .tv
  else if profileStb <+: rdkProfile then .stb
  else .notFound

def outcome : Option Text → Profile
  | some rdkProfile => profileOf rdkProfile
  | none => .notFound

/-- A missing file stands for one that cannot be opened, and `none` for a loop that
calls `fgets` more than `fuel` times. -/
def searchRdkProfile (file : Option Text) (fuel : ℕ) : Option Profile :=
  match file with
  | some text => (whileFgets '\n' 255 searchLine fuel none text).map outcome
  | none => some .notFound

variable {text line rest s needle value : Text} {c : Char} {fuel : ℕ}

section Strings

theorem prefix_concat_of_not_mem (h : c ∉ needle) : needle <+: s ++ [c] ↔ needle <+: s := by
  rw [List.prefix_concat_iff]
  refine ⟨?_, .inr⟩
  intro hpre
  rcases hpre with rfl | hpre
  · simp at h
  · exact hpre

theorem prefix_cStr (h : nul ∉ needle) : needle <+: cStr s ↔ needle <+: s := by
  refine ⟨fun hpre ↦ hpre.trans (List.takeWhile_prefix _), ?_⟩
  intro hpre
  obtain ⟨rest, rfl⟩ := hpre
  rw [Settings.cStr_append h]
  exact List.prefix_append _ _

theorem strstr_start (h : needle <+: s) : strstr needle s = some s := by
  cases s with
  | nil => rw [strstr, if_pos h]
  | cons c s => rw [strstr, if_pos h]

theorem strstr_concat (hne : needle ≠ []) (h : c ∉ needle) :
    strstr needle (s ++ [c]) = (strstr needle s).map (· ++ [c]) := by
  induction s with
  | nil =>
    have hsingle : ¬ needle <+: [c] := by
      rw [← List.nil_append [c], prefix_concat_of_not_mem h, List.prefix_nil]
      exact hne
    have hnil : ¬ needle <+: [] := List.prefix_nil.not.mpr hne
    simp [strstr, hsingle, hnil]
  | cons d s ih =>
    have hpre : needle <+: d :: s ++ [c] ↔ needle <+: d :: s := prefix_concat_of_not_mem h
    rw [List.cons_append] at hpre ⊢
    by_cases hd : needle <+: d :: s
    · rw [strstr_start hd, strstr_start (hpre.mpr hd)]
      rfl
    · rw [strstr, if_neg (mt hpre.mp hd), strstr, if_neg hd, ih]

theorem cStr_append_of_mem (h : nul ∈ s) (rest : Text) : cStr (s ++ rest) = cStr s := by
  induction s with
  | nil => cases h
  | cons d s ih =>
    by_cases hd : d = nul
    · simp [cStr, hd]
    · have hs : nul ∈ s := List.mem_of_ne_of_mem (Ne.symm hd) h
      simpa [cStr, hd] using ih hs

theorem prefix_popNewLine (hcr : '\r' ∉ needle) (hnew : '\n' ∉ needle) :
    needle <+: popNewLine value ↔ needle <+: value := by
  unfold popNewLine
  split
  next c hlast =>
    split
    next hc =>
      have hvalue := List.dropLast_append_getLast? c hlast
      have hmem : c ∉ needle := by
        rcases hc with rfl | rfl
        · exact hcr
        · exact hnew
      conv_rhs => rw [← hvalue]
      exact (prefix_concat_of_not_mem hmem).symm
    · rfl
  · rfl

end Strings

section Chunks

def Holds (buffer line : Text) : Prop := buffer = line ∨ buffer = line ++ ['\n']

/-- Where the lines fit into the buffer, `fgets` reads them one by one. -/
theorem chunks_hold {n : ℕ} (h : ∀ line ∈ lines text, line.length ≤ n) :
    List.Forall₂ Holds (chunks '\n' n text) (lines text) := by
  induction hlength : text.length using Nat.strong_induction_on generalizing text with
  | _ length ih =>
    by_cases hmem : '\n' ∈ text
    · obtain ⟨line, rest, rfl, hline⟩ := List.eq_append_cons_of_mem hmem
      rw [lines_append, lines_ended hline, List.singleton_append] at h ⊢
      obtain ⟨hshort, hrest⟩ := List.forall_mem_cons.mp h
      have hlt : rest.length < length := by
        rw [← hlength, List.length_append, List.length_cons]
        omega
      rw [chunks_line hline hshort]
      exact .cons (.inr rfl) (ih rest.length hlt hrest rfl)
    · by_cases hne : text = []
      · subst hne
        rw [chunks_nil]
        exact .nil
      · rw [lines_of_not_mem hne hmem] at h ⊢
        rw [chunks_last hmem hne ((h text (by simp)).trans (Nat.le_succ n))]
        exact .cons (.inl rfl) .nil

end Chunks

section Profiles

theorem outcome_congr {value' : Text}
    (h : ∀ profile ∈ [profileTv, profileStb], profile <+: value ↔ profile <+: value') :
    outcome (some value) = outcome (some value') := by
  obtain ⟨htv, hrest⟩ := List.forall_mem_cons.mp h
  have hstb := List.forall_mem_singleton.mp hrest
  rw [outcome, outcome, profileOf, profileOf]
  simp only [htv, hstb]

end Profiles

section Search

theorem prefix_of_strstr (h : strstr needle s = some value) : needle <+: value := by
  induction s with
  | nil =>
    rw [strstr] at h
    split at h
    next hpre => exact Option.some.inj h ▸ hpre
    · cases h
  | cons c s ih =>
    rw [strstr] at h
    split at h
    next hpre => exact Option.some.inj h ▸ hpre
    · exact ih h

/-- The end of a line that `fgets` leaves in the buffer does not matter. -/
theorem outcome_newLine (line : Text) :
    (rdkProfileIn (line ++ ['\n'])).map (outcome ∘ some) =
      (rdkProfileIn line).map (outcome ∘ some) := by
  by_cases hnul : nul ∈ line
  · rw [rdkProfileIn, cStr_append_of_mem hnul, rdkProfileIn]
  · have hwhole : cStr (line ++ ['\n']) = cStr line ++ ['\n'] := by
      rw [Settings.cStr_append hnul, Settings.cStr_of_not_mem hnul]
      rfl
    rw [rdkProfileIn, rdkProfileIn, hwhole, strstr_concat (by decide) (by decide)]
    cases hstr : strstr rdkProfileKey (cStr line) with
    | none => rfl
    | some found =>
      have hlength := (prefix_of_strstr hstr).length_le
      have hdrop : (found ++ ['\n']).drop rdkProfileKey.length =
          found.drop rdkProfileKey.length ++ ['\n'] := List.drop_append_of_le_length hlength
      have hsame : outcome (some (found.drop rdkProfileKey.length ++ ['\n'])) =
          outcome (some (found.drop rdkProfileKey.length)) := by
        apply outcome_congr
        intro profile hprofile
        apply prefix_concat_of_not_mem
        revert profile
        decide
      simpa [hdrop] using hsame

theorem foldUntil_searchLine (buffers : List Text) :
    foldUntil searchLine none buffers = buffers.findSome? rdkProfileIn := by
  induction buffers with
  | nil => rfl
  | cons buffer buffers ih =>
    rw [foldUntil, searchLine, List.findSome?_cons]
    cases h : rdkProfileIn buffer with
    | none => simpa using ih
    | some rdkProfile => simp

def firstRdkProfile (text : Text) : Option Text := (lines text).findSome? rdkProfileIn

theorem outcome_forall₂ {buffers ls : List Text} (h : List.Forall₂ Holds buffers ls) :
    outcome (buffers.findSome? rdkProfileIn) = outcome (ls.findSome? rdkProfileIn) := by
  induction h with
  | nil => rfl
  | @cons buffer line buffers ls hhold _ ih =>
    have hsame : (rdkProfileIn buffer).map (outcome ∘ some) =
        (rdkProfileIn line).map (outcome ∘ some) := by
      rcases hhold with rfl | rfl
      · rfl
      · exact outcome_newLine line
    rw [List.findSome?_cons, List.findSome?_cons]
    cases hbuffer : rdkProfileIn buffer <;> cases hline : rdkProfileIn line <;>
      rw [hbuffer, hline] at hsame
    · exact ih
    · cases hsame
    · cases hsame
    · exact Option.some.inj hsame

theorem searchRdkProfile_eq (hshort : ∀ line ∈ lines text, line.length < 255)
    (hfuel : text.length < fuel) :
    searchRdkProfile (some text) fuel = some (outcome (firstRdkProfile text)) := by
  have hhold : List.Forall₂ Holds (chunks '\n' 254 text) (lines text) := by
    apply chunks_hold
    intro line hline
    exact Nat.le_of_lt_succ (hshort line hline)
  rw [searchRdkProfile, whileFgets_eq hfuel, foldUntil_searchLine, Option.map_some,
    outcome_forall₂ hhold, firstRdkProfile]

end Search

section Agreement

def definedProfile (text : Text) : Option Text :=
  (firstAccepted text rdkProfileName).map propertyContent

/-- The first line that contains the key is the first one that is accepted, and it
starts with the key; or there is no line of either kind. -/
structure SameLine (text : Text) : Prop where
  first : (lines text).find? (fun line ↦ (rdkProfileIn line).isSome) =
    firstAccepted text rdkProfileName
  start : ∀ line, firstAccepted text rdkProfileName = some line → rdkProfileKey <+: line

theorem outcome_popNewLine (value : Text) :
    outcome (some (popNewLine value)) = outcome (some value) := by
  apply outcome_congr
  intro profile hprofile
  apply prefix_popNewLine <;> revert profile <;> decide

theorem outcome_cStr (value : Text) : outcome (some (cStr value)) = outcome (some value) := by
  apply outcome_congr
  intro profile hprofile
  apply prefix_cStr
  revert profile
  decide

theorem rdkProfileIn_key (value : Text) :
    rdkProfileIn (rdkProfileKey ++ value) = some (cStr value) := by
  rw [rdkProfileIn, Settings.cStr_append (by decide), strstr_start (List.prefix_append _ _),
    Option.map_some, List.drop_left]

theorem propertyContent_key (value : Text) : propertyContent (rdkProfileKey ++ value) = value := rfl

theorem firstRdkProfile_eq (text : Text) : firstRdkProfile text =
    ((lines text).find? fun line ↦ (rdkProfileIn line).isSome).bind rdkProfileIn := by
  rw [firstRdkProfile]
  induction lines text with
  | nil => rfl
  | cons line ls ih =>
    rw [List.findSome?_cons, List.find?_cons]
    cases h : rdkProfileIn line with
    | none => simpa using ih
    | some rdkProfile => simp [h]

theorem SameLine.outcome_eq (h : SameLine text) :
    outcome (firstRdkProfile text) = outcome (definedProfile text) := by
  rw [firstRdkProfile_eq, h.first, definedProfile]
  cases hline : firstAccepted text rdkProfileName with
  | none => rfl
  | some line =>
    obtain ⟨value, rfl⟩ := h.start line hline
    rw [Option.bind_some, Option.map_some, propertyContent_key, rdkProfileIn_key, outcome_cStr]

theorem readPropertyFromFile_rdkProfile (depth : ℕ)
    (hplain : ∀ line ∈ lines text, Accepted rdkProfileName line →
      (propertyContent line).head? ≠ some '$') :
    ∃ result, readPropertyFromFile (some text) (depth + 1) rdkProfileName = some result ∧
      (if result.1 then profileOf result.2 else .notFound) = outcome (definedProfile text) := by
  rw [readPropertyFromFile, definedProfile, readLines_plain hplain]
  refine ⟨_, rfl, ?_⟩
  rw [← firstAccepted]
  cases firstAccepted text rdkProfileName with
  | none => rfl
  | some line => exact outcome_popNewLine (propertyContent line)

/-- The readers come to the same profile, given enough fuel. -/
def Agree (text : Text) : Prop :=
  ∀ fuel depth, text.length < fuel →
    ∃ result, readPropertyFromFile (some text) (depth + 1) rdkProfileName = some result ∧
      searchRdkProfile (some text) fuel =
        some (if result.1 then profileOf result.2 else .notFound)

theorem agree_iff (hplain : ∀ line ∈ lines text, Accepted rdkProfileName line →
      (propertyContent line).head? ≠ some '$')
    (hshort : ∀ line ∈ lines text, line.length < 255) :
    Agree text ↔ outcome (firstRdkProfile text) = outcome (definedProfile text) := by
  refine ⟨?_, ?_⟩
  · intro h
    obtain ⟨result, hread, hsearch⟩ := h (text.length + 1) 0 (Nat.lt_succ_self _)
    obtain ⟨result', hread', houtcome⟩ := readPropertyFromFile_rdkProfile 0 hplain
    obtain rfl := Option.some.inj (hread.symm.trans hread')
    rw [searchRdkProfile_eq hshort (Nat.lt_succ_self _), houtcome] at hsearch
    exact Option.some.inj hsearch
  · intro h fuel depth hfuel
    obtain ⟨result, hread, houtcome⟩ := readPropertyFromFile_rdkProfile depth hplain
    exact ⟨result, hread, by rw [searchRdkProfile_eq hshort hfuel, houtcome, h]⟩

/-- Every line that a reader may take names a profile, and two of them name the same one
only if they are the same line, and the property stands at its start. -/
structure NoCoincidence (text : Text) : Prop where
  found : ∀ line ∈ lines text, ∀ value ∈ rdkProfileIn line, profileOf value ≠ .notFound
  accepted : ∀ line ∈ lines text, Accepted rdkProfileName line →
    profileOf (propertyContent line) ≠ .notFound
  apart : ∀ line ∈ lines text, ∀ value ∈ rdkProfileIn line, ∀ line' ∈ lines text,
    Accepted rdkProfileName line' → profileOf value = profileOf (propertyContent line') →
      line = line' ∧ rdkProfileKey <+: line'

theorem sameLine_of_outcome_eq (hno : NoCoincidence text)
    (h : outcome (firstRdkProfile text) = outcome (definedProfile text)) : SameLine text := by
  have haccepted {line : Text} (hline : firstAccepted text rdkProfileName = some line) :
      line ∈ lines text ∧ Accepted rdkProfileName line :=
    ⟨List.mem_of_find?_eq_some hline, by simpa using List.find?_some hline⟩
  rw [firstRdkProfile_eq, definedProfile] at h
  cases hfound : (lines text).find? fun line ↦ (rdkProfileIn line).isSome with
  | none =>
    rw [hfound] at h
    cases hfirst : firstAccepted text rdkProfileName with
    | none => exact ⟨by rw [hfound, hfirst], by simp [hfirst]⟩
    | some line =>
      rw [hfirst] at h
      obtain ⟨hmem, hline⟩ := haccepted hfirst
      exact (hno.accepted line hmem hline h.symm).elim
  | some line =>
    have hmem := List.mem_of_find?_eq_some hfound
    have hsome : (rdkProfileIn line).isSome = true := by
      obtain ⟨hsome, -⟩ := List.find?_eq_some_iff_append.mp hfound
      exact hsome
    obtain ⟨value, hvalue⟩ := Option.isSome_iff_exists.mp hsome
    rw [hfound, Option.bind_some, hvalue] at h
    cases hfirst : firstAccepted text rdkProfileName with
    | none =>
      rw [hfirst] at h
      exact (hno.found line hmem value hvalue h).elim
    | some line' =>
      rw [hfirst] at h
      obtain ⟨hmem', hline'⟩ := haccepted hfirst
      obtain ⟨rfl, hstart⟩ := hno.apart line hmem value hvalue line' hmem' hline' h
      refine ⟨hfound.trans hfirst.symm, ?_⟩
      intro other hother
      rwa [← Option.some.inj (hfirst.symm.trans hother)]

/-- The two readers agree on the profile where they find it in the same line, and only
there, but for coincidences. -/
theorem profiles_agree (hplain : ∀ line ∈ lines text, Accepted rdkProfileName line →
      (propertyContent line).head? ≠ some '$')
    (hshort : ∀ line ∈ lines text, line.length < 255) :
    (SameLine text → Agree text) ∧ (NoCoincidence text → (Agree text ↔ SameLine text)) := by
  rw [agree_iff hplain hshort]
  refine ⟨SameLine.outcome_eq, ?_⟩
  intro hno
  exact ⟨sameLine_of_outcome_eq hno, SameLine.outcome_eq⟩

theorem profiles_agree_afterComment : Agree "#PROFILE\nRDK_PROFILE=TV\r\n".toList ∧
    ¬ Agree "MY_RDK_PROFILE=TV\nRDK_PROFILE=STB\n".toList := by
  refine ⟨(profiles_agree (by decide) (by decide)).1 ⟨by decide, by decide⟩, ?_⟩
  rw [(profiles_agree (by decide) (by decide)).2 ⟨by decide, by decide, by decide⟩]
  exact fun h ↦ absurd h.first (by decide)

/-- A profile that is commented out counts for one of the readers. -/
theorem comment_counts : ¬ ∀ text : Text,
    (∀ line ∈ lines text, Accepted rdkProfileName line →
      (propertyContent line).head? ≠ some '$') →
    (∀ line ∈ lines text, line.length < 255) → Agree text := by
  intro h
  obtain ⟨result, hread, hsearch⟩ :=
    h "#RDK_PROFILE=TV\n".toList (by decide) (by decide) 17 0 (by decide)
  have hread' : readPropertyFromFile (some "#RDK_PROFILE=TV\n".toList) 1 rdkProfileName =
      some (false, []) := by decide
  obtain rfl := Option.some.inj (hread.symm.trans hread')
  revert hsearch
  decide

end Agreement

end Peripherals.SearchRdkProfile
