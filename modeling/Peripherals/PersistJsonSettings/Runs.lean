import Peripherals.Execution
import Peripherals.PersistJsonSettings

namespace Peripherals.PersistJsonSettings

open Execution

variable {Value : Type*}

/-- A call of `persistJsonSettings`. `works` tells which of its file calls work, and
ends where the process is stopped. -/
structure Save (Value : Type*) where
  strKey : Text
  jsValue : Value
  works : List Bool

def save (format : Format Value) (disk : Option Text) (a : Save Value) : Option (Option Text) :=
  some (run format a.strKey a.jsValue disk a.works).disk

/-- What a call comes to for those who read the settings. -/
inductive Outcome (Value : Type*)
  | kept
  | lost
  | stored (reads : Bool) (strKey : Text) (jsValue : Value)

namespace Save

variable (a : Save Value) (disk : Option Text)

def opens : Bool := disk.isSome && a.works[0]? == some true

/-- The file calls after `Open`, and `Create` where the file is not open. -/
def later : List Bool := if a.opens disk then a.works.drop 1 else a.works.drop 2

/-- A file that does not open is created, also where there is one. -/
def truncates : Bool := !a.opens disk && a.works[1]? == some true

def reads : Bool := a.opens disk && (a.later disk)[0]? == some true

def destroys : Bool := (a.later disk)[1]? == some true

def creates : Bool := (a.later disk)[2]? == some true

def writes : ℕ := (((a.later disk).drop 3).takeWhile id).length

def settings (format : Format Value) : JsonObject Value :=
  (if a.reads disk then fromFile format disk else ∅).insert a.strKey a.jsValue

def parts (format : Format Value) : List Text :=
  format.blocks (format.toText (a.settings disk format))

def outcome (format : Format Value) : Outcome Value :=
  if a.creates disk then
    if (a.parts disk format).length ≤ a.writes disk then
      .stored (a.reads disk) a.strKey a.jsValue
    else .lost
  else if a.destroys disk || a.truncates disk then .lost
  else .kept

end Save

/-- An object that can be read back from its text, and from no beginning of it. -/
structure Prints (format : Format Value) (m : JsonObject Value) : Prop where
  parse : format.parse (format.toText m) = some m
  blocks : (format.blocks (format.toText m)).flatten = format.toText m
  torn : ∀ i < (format.blocks (format.toText m)).length,
    format.parse ((format.blocks (format.toText m)).take i).flatten = none

variable {format : Format Value} {strKey written : Text} {jsValue : Value} {s : Process Value}
  {rest : List Text} {disk disk' : Option Text} {a : Save Value} {tr : List (Save Value)}

theorem ended_disk (h : s.phase.Over) (works : List Bool) :
    (works.foldl (step format strKey jsValue) s).disk = s.disk := by
  induction works generalizing s with
  | nil => rfl
  | cons b works ih =>
    have hstep : (step format strKey jsValue s b).phase.Over ∧
        (step format strKey jsValue s b).disk = s.disk := by
      cases b with
      | false =>
        refine ⟨?_, step_failed s⟩
        unfold step
        rcases h with h | h | h <;> rw [h]
        · exact .inr (.inl rfl)
        · exact .inr (.inr rfl)
        · exact .inr (.inr rfl)
      | true => exact step_over format strKey jsValue h
    rw [List.foldl_cons, ih hstep.1, hstep.2]

/-- The writes that work before one fails leave their blocks. -/
theorem writing_disk (works : List Bool) (hphase : s.phase = .toWrite rest)
    (hopen : s.isOpen = true) (hdisk : s.disk = some written) :
    (works.foldl (step format strKey jsValue) s).disk =
      some (written ++ (rest.take (works.takeWhile id).length).flatten) := by
  induction works generalizing s rest written with
  | nil => simp [hdisk]
  | cons b works ih =>
    cases rest with
    | nil => rw [ended_disk (.inl hphase), hdisk, List.take_nil, List.flatten_nil, List.append_nil]
    | cons block rest =>
      cases b with
      | false =>
        have hstep : step format strKey jsValue s false = { s with phase := .closing } := by
          unfold step
          rw [hphase, Phase.toWrite]
          simp
        rw [List.foldl_cons, hstep, ended_disk (.inl rfl)]
        simp [hdisk]
      | true =>
        have hstep : step format strKey jsValue s true =
            { s with phase := .toWrite rest, disk := some (written ++ block) } := by
          unfold step
          rw [hphase, Phase.toWrite]
          simp [hopen, hdisk]
        have hrest := ih (s := { s with phase := .toWrite rest, disk := some (written ++ block) })
          rfl hopen rfl
        rw [List.foldl_cons, hstep, hrest]
        simp

theorem closed_disk (works : List Bool) (hphase : s.phase = .toWrite rest)
    (hopen : s.isOpen = false) :
    (works.foldl (step format strKey jsValue) s).disk = s.disk := by
  cases rest with
  | nil => exact ended_disk (.inl hphase) works
  | cons block rest =>
    cases works with
    | nil => rfl
    | cons b works =>
      have hstep : step format strKey jsValue s b = { s with phase := .closing } := by
        unfold step
        rw [hphase, Phase.toWrite]
        simp [hopen]
      rw [List.foldl_cons, hstep, ended_disk (.inl rfl)]

theorem creating_disk (works : List Bool) (hphase : s.phase = .creating) :
    (works.foldl (step format strKey jsValue) s).disk =
      if works[0]? = some true then
        some ((format.blocks (format.toText (s.cecSetting.insert strKey jsValue))).take
          ((works.drop 1).takeWhile id).length).flatten
      else s.disk := by
  cases works with
  | nil => simp
  | cons b works =>
    have hstep : step format strKey jsValue s b =
        { phase := .toWrite (format.blocks (format.toText (s.cecSetting.insert strKey jsValue)))
          disk := if b then some [] else s.disk
          isOpen := b
          cecSetting := s.cecSetting.insert strKey jsValue } := by
      unfold step
      rw [hphase]
    rw [List.foldl_cons, hstep]
    cases b with
    | false => rw [closed_disk works rfl rfl]; simp
    | true => rw [writing_disk works rfl rfl rfl]; simp

theorem destroying_disk (works : List Bool) (hphase : s.phase = .destroying) :
    (works.foldl (step format strKey jsValue) s).disk =
      if works[1]? = some true then
        some ((format.blocks (format.toText (s.cecSetting.insert strKey jsValue))).take
          ((works.drop 2).takeWhile id).length).flatten
      else if works[0]? = some true then none
      else s.disk := by
  cases works with
  | nil => simp
  | cons b works =>
    have hstep : step format strKey jsValue s b =
        { s with
          phase := .creating
          disk := if b then none else s.disk
          isOpen := false } := by
      unfold step
      rw [hphase]
    rw [List.foldl_cons, hstep, creating_disk works rfl]
    simp

/-- From the reading of the file on. -/
theorem reading_disk (works : List Bool) (hphase : s.phase = .reading) :
    (works.foldl (step format strKey jsValue) s).disk =
      if works[2]? = some true then
        some ((format.blocks (format.toText
          ((if (s.isOpen && works[0]? == some true) = true then fromFile format s.disk
            else s.cecSetting).insert strKey jsValue))).take
              ((works.drop 3).takeWhile id).length).flatten
      else if works[1]? = some true then none
      else s.disk := by
  cases works with
  | nil => simp
  | cons b works =>
    have hstep : step format strKey jsValue s b =
        { s with
          phase := .destroying
          cecSetting :=
            if (s.isOpen && b) = true then fromFile format s.disk else s.cecSetting } := by
      unfold step
      rw [hphase]
      cases b <;> cases s.isOpen <;> rfl
    rw [List.foldl_cons, hstep, destroying_disk works rfl]
    simp

/-- What a call leaves on the disk. -/
theorem save_disk (hempty : format.parse [] = none) (disk : Option Text) (a : Save Value) :
    (run format a.strKey a.jsValue disk a.works).disk =
      if a.creates disk then some ((a.parts disk format).take (a.writes disk)).flatten
      else if a.destroys disk then none
      else if a.truncates disk then some []
      else disk := by
  obtain ⟨strKey, jsValue, works⟩ := a
  have hnothing : fromFile format (some []) = ∅ := by simp [fromFile, hempty]
  rw [run]
  cases works with
  | nil => simp [Save.creates, Save.destroys, Save.truncates, Save.later, Process.start]
  | cons b works =>
    by_cases hopens : b = true ∧ disk.isSome = true
    · obtain ⟨rfl, hsome⟩ := hopens
      have hstep : step format strKey jsValue (.start disk) true =
          { Process.start disk with phase := .reading, isOpen := true } := by
        simp [step, Process.start, hsome]
      rw [List.foldl_cons, hstep, reading_disk works rfl]
      simp [Save.creates, Save.destroys, Save.truncates, Save.later, Save.parts, Save.settings,
        Save.reads, Save.writes, Save.opens, Process.start, hsome]
    · have hclosed : (b && disk.isSome) = false := by simpa using hopens
      have hstep : step format strKey jsValue (.start disk) b =
          { Process.start disk with phase := .creatingMissing } := by
        simp only [step, Process.start, hclosed, Bool.false_eq_true, if_false]
      rw [Bool.and_comm] at hclosed
      rw [List.foldl_cons, hstep]
      cases works with
      | nil => simp [Save.creates, Save.destroys, Save.truncates, Save.later, Save.opens,
          Process.start, hclosed]
      | cons c works =>
        have hcreate : step format strKey jsValue
            { Process.start disk with phase := .creatingMissing } c =
            { phase := .reading, disk := if c then some [] else disk, isOpen := c,
              cecSetting := ∅ } := by
          cases c <;> rfl
        rw [List.foldl_cons, hcreate, reading_disk works rfl]
        cases c <;>
          simp [Save.creates, Save.destroys, Save.truncates, Save.later, Save.parts,
            Save.settings, Save.reads, Save.writes, Save.opens, hclosed, hnothing]

theorem Prints.fromFile_take {m : JsonObject Value} (h : Prints format m) (n : ℕ) :
    fromFile format (some ((format.blocks (format.toText m)).take n).flatten) =
      if (format.blocks (format.toText m)).length ≤ n then m else ∅ := by
  split
  next hn => simp [fromFile, List.take_of_length_le hn, h.blocks, h.parse]
  next hn => simp [fromFile, h.torn n (Nat.lt_of_not_le hn)]

/-- What readers find of a key, if it is not what they found before. -/
def Outcome.found (key : Text) : Outcome Value → Option (Option Value)
  | .kept => none
  | .lost => some none
  | .stored reads strKey jsValue =>
    if strKey = key then some (some jsValue) else if reads then none else some none

def outcomes (format : Format Value) : Option Text → List (Save Value) → List (Outcome Value)
  | _, [] => []
  | disk, a :: tr => a.outcome disk format ::
    outcomes format (run format a.strKey a.jsValue disk a.works).disk tr

def Readable (format : Format Value) (disk : Option Text) (a : Save Value) : Prop :=
  Prints format (a.settings disk format)

theorem save_found (hempty : format.parse [] = none) (hprints : Readable format disk a)
    (hs : save format disk a = some disk') (key : Text) :
    (fromFile format disk').lookup key =
      ((a.outcome disk format).found key).getD ((fromFile format disk).lookup key) := by
  obtain rfl := Option.some.inj hs
  rw [save_disk hempty, Save.outcome]
  by_cases hcreates : a.creates disk = true
  · have hread : fromFile format (some ((a.parts disk format).take (a.writes disk)).flatten) =
        if (a.parts disk format).length ≤ a.writes disk then a.settings disk format else ∅ :=
      hprints.fromFile_take (a.writes disk)
    rw [if_pos hcreates, if_pos hcreates, hread]
    by_cases hwrites : (a.parts disk format).length ≤ a.writes disk
    · rw [if_pos hwrites, if_pos hwrites, Outcome.found, Save.settings]
      by_cases hkey : a.strKey = key
      · subst hkey
        simp
      · rw [if_neg hkey, AList.lookup_insert_ne (Ne.symm hkey)]
        cases a.reads disk <;> simp
    · rw [if_neg hwrites, if_neg hwrites, Outcome.found, AList.lookup_empty]
      rfl
  · rw [if_neg hcreates, if_neg hcreates]
    by_cases hdestroys : a.destroys disk = true
    · simp [hdestroys, Outcome.found, fromFile]
    · by_cases htruncates : a.truncates disk = true
      · simp [hdestroys, htruncates, Outcome.found, fromFile, hempty]
      · simp [hdestroys, htruncates, Outcome.found]

theorem outcomes_snoc (h : Run (save format) disk tr disk') :
    outcomes format disk (tr ++ [a]) = outcomes format disk tr ++ [a.outcome disk' format] := by
  induction tr generalizing disk with
  | nil =>
    obtain rfl := h.eq_of_nil
    rfl
  | cons b tr ih =>
    obtain ⟨u, hs, h⟩ := run_cons.mp h
    obtain rfl := Option.some.inj hs
    rw [List.cons_append, outcomes, ih h, outcomes, List.cons_append]

theorem prints_flat {m : JsonObject Text} (h : flat.parse (flat.toText m) = some m) :
    Prints flat m := by
  refine ⟨h, List.flatten_singleton, ?_⟩
  intro i hi
  obtain rfl : i = 0 := Nat.lt_one_iff.mp hi
  rfl

/-- The second call is stopped when it has created the file, and the third one fails to
open it. -/
def threeSaves : List (Save Text) :=
  [⟨['a'], ['3'], List.replicate 8 true⟩, ⟨['b'], ['4'], List.replicate 4 true⟩,
    ⟨['b'], ['5'], false :: List.replicate 8 true⟩]

end Peripherals.PersistJsonSettings
