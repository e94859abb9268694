import Mathlib.Algebra.Ring.Nat
import Mathlib.Data.List.TakeDrop
import Mathlib.Logic.Function.Basic

namespace Peripherals.UtilsFile

/-- What the calls of `Core::File` report, in the order they are made. A read
reports the end of the file and an error alike, by a value that is not positive. -/
inductive Outcome
  | opened (success : Bool)
  | created (success : Bool)
  | read (len : Int)
  | wrote (count : Int)
  deriving DecidableEq

def Outcome.succeeds : Outcome → Bool
  | .opened success => success
  | .created success => success
  | .read len => 0 < len
  | .wrote count => 0 < count

def Outcome.bytesRead : Outcome → ℕ
  | .read len => len.toNat
  | _ => 0

/-- How far the code gets on the outcomes it has been given: it is done, it
waits for the next outcome, or the last one is none that the call can have. -/
inductive Progress (α : Type*)
  | done (value : α)
  | waiting
  | impossible
  deriving DecidableEq

def Progress.map {α β : Type*} (f : α → β) : Progress α → Progress β
  | .done value => .done (f value)
  | .waiting => .waiting
  | .impossible => .impossible

def bufLen : ℕ := 1024

mutual

/-- The outer loop of `MoveFile`, from its read of the source: the value of
`result` when the loop is left, and what has been written by then. -/
def copyLoop (unread written : List UInt8) : List Outcome → Progress (Bool × List UInt8)
  | [] => .waiting
  | .read len :: rest =>
    if len ≤ 0 then .done (true, written)
    else if len.toNat ≤ min bufLen unread.length then
      writeLoop (unread.take len.toNat) (unread.drop len.toNat) written rest
    else .impossible
  | _ :: _ => .impossible

/-- The inner loop, on the part of the block from `ptr` on. -/
def writeLoop (block unread written : List UInt8) : List Outcome → Progress (Bool × List UInt8)
  | [] => .waiting
  | .wrote count :: rest =>
    if count ≤ 0 then .done (false, written)
    else if count.toNat < block.length then
      writeLoop (block.drop count.toNat) unread (written ++ block.take count.toNat) rest
    else if count.toNat = block.length then copyLoop unread (written ++ block) rest
    else .impossible
  | _ :: _ => .impossible

end

/-- The files by the paths they have once links are resolved; two spellings of
one path are one path here. -/
abbrev Files (Path : Type*) := Path → Option (List UInt8)

variable {Path : Type*} [DecidableEq Path]

/-- `fileFrom.Destroy` or `fileTo.Destroy`, which do not fail here, after the copy. -/
def finish (files : Files Path) (fileFrom fileTo : Path) (copied : Bool × List UInt8) :
    Bool × Files Path :=
  let files := Function.update files fileTo (some copied.2)
  if copied.1 then (true, Function.update files fileFrom none)
  else (false, Function.update files fileTo none)

def MoveFile (files : Files Path) (fileFrom fileTo : Path) (script : List Outcome) :
    Progress (Bool × Files Path) :=
  match files fileFrom, files fileTo with
  | some content, none =>
    match script with
    | [] => .waiting
    | .opened false :: _ => .done (false, files)
    | [.opened true] => .waiting
    | .opened true :: .created false :: _ => .done (false, files)
    | .opened true :: .created true :: rest =>
      (copyLoop content [] rest).map (finish files fileFrom fileTo)
    | _ :: _ => .impossible
  | _, _ => .done (false, files)

theorem Progress.map_eq_done {α β : Type*} {f : α → β} {p : Progress α} {b : β} :
    p.map f = .done b ↔ ∃ a, p = .done a ∧ f a = b := by
  cases p <;> simp [Progress.map]

theorem Progress.map_eq_waiting {α β : Type*} {f : α → β} {p : Progress α} :
    p.map f = .waiting ↔ p = .waiting := by
  cases p <;> simp [Progress.map]

/-- The first outcome that is no success, on which the code leaves its loops. -/
def failure (script : List Outcome) : Option Outcome := script.find? fun o ↦ !o.succeeds

def delivered (script : List Outcome) : ℕ :=
  ((script.takeWhile Outcome.succeeds).map Outcome.bytesRead).sum

theorem failure_of_not_succeeds {o : Outcome} {script : List Outcome} (h : o.succeeds = false) :
    failure (o :: script) = some o := by
  simp [failure, h]

theorem failure_of_succeeds {o : Outcome} {script : List Outcome} (h : o.succeeds = true) :
    failure (o :: script) = failure script := by
  simp [failure, h]

theorem delivered_of_not_succeeds {o : Outcome} {script : List Outcome}
    (h : o.succeeds = false) : delivered (o :: script) = 0 := by
  simp [delivered, h]

theorem delivered_of_succeeds {o : Outcome} {script : List Outcome} (h : o.succeeds = true) :
    delivered (o :: script) = o.bytesRead + delivered script := by
  simp [delivered, h]

/-- The loops end with `result` on the first failure: after a read with the
bytes `expected` written, or after a write. -/
def Left (script : List Outcome) (result : Bool) (written expected : List UInt8) : Prop :=
  (result = true ∧ written = expected ∧ ∃ len, failure script = some (.read len)) ∨
    (result = false ∧ ∃ count, failure script = some (.wrote count))

theorem left_cons {o : Outcome} {script : List Outcome} (h : o.succeeds = true) {result : Bool}
    {written expected : List UInt8} :
    Left (o :: script) result written expected ↔ Left script result written expected := by
  simp only [Left, failure_of_succeeds h]

/-- Everything delivered before a failing read has been written, in its order. -/
theorem loops_done (script : List Outcome) {result : Bool} {written' : List UInt8} :
    (∀ unread written, copyLoop unread written script = .done (result, written') →
      Left script result written' (written ++ unread.take (delivered script))) ∧
    (∀ block unread written, writeLoop block unread written script = .done (result, written') →
      Left script result written' (written ++ block ++ unread.take (delivered script))) := by
  induction script with
  | nil => simp [copyLoop, writeLoop]
  | cons o rest ih =>
    obtain ⟨ihc, ihw⟩ := ih
    refine ⟨?_, ?_⟩
    · intro unread written h
      cases o with
      | read len =>
        simp only [copyLoop] at h
        split at h
        · have hs : (Outcome.read len).succeeds = false := by simpa [Outcome.succeeds]
          obtain ⟨rfl, rfl⟩ : true = result ∧ written = written' := by simpa using h
          exact .inl ⟨rfl, by simp [delivered_of_not_succeeds hs], len, failure_of_not_succeeds hs⟩
        · have hs : (Outcome.read len).succeeds = true := by simp [Outcome.succeeds]; omega
          split at h
          · rw [left_cons hs, delivered_of_succeeds hs, Outcome.bytesRead, List.take_add,
              ← List.append_assoc]
            exact ihw _ _ _ h
          · simp at h
      | opened _ => simp [copyLoop] at h
      | created _ => simp [copyLoop] at h
      | wrote _ => simp [copyLoop] at h
    · intro block unread written h
      cases o with
      | wrote count =>
        simp only [writeLoop] at h
        split at h
        · have hs : (Outcome.wrote count).succeeds = false := by simpa [Outcome.succeeds]
          obtain ⟨rfl, -⟩ : false = result ∧ written = written' := by simpa using h
          exact .inr ⟨rfl, count, failure_of_not_succeeds hs⟩
        · have hs : (Outcome.wrote count).succeeds = true := by simp [Outcome.succeeds]; omega
          rw [left_cons hs, delivered_of_succeeds hs,
            show (Outcome.wrote count).bytesRead = 0 from rfl, Nat.zero_add]
          split at h
          · have hl := ihw _ _ _ h
            rwa [List.append_assoc written, List.take_append_drop] at hl
          · split at h
            · exact ihc _ _ h
            · simp at h
      | opened _ => simp [writeLoop] at h
      | created _ => simp [writeLoop] at h
      | read _ => simp [writeLoop] at h

/-- Every read and every write that succeeds takes a byte on, so the loops
cannot go on for long. -/
theorem loops_waiting (script : List Outcome) :
    (∀ unread written, copyLoop unread written script = .waiting →
      script.length ≤ 2 * unread.length) ∧
    (∀ block unread written, writeLoop block unread written script = .waiting →
      script.length ≤ block.length + 2 * unread.length) := by
  induction script with
  | nil => simp
  | cons o rest ih =>
    obtain ⟨ihc, ihw⟩ := ih
    refine ⟨?_, ?_⟩
    · intro unread written h
      cases o with
      | read len =>
        simp only [copyLoop] at h
        split at h
        · simp at h
        · split at h
          · have hrest := ihw _ _ _ h
            simp only [List.length_take, List.length_drop, List.length_cons] at hrest ⊢
            omega
          · simp at h
      | opened _ => simp [copyLoop] at h
      | created _ => simp [copyLoop] at h
      | wrote _ => simp [copyLoop] at h
    · intro block unread written h
      cases o with
      | wrote count =>
        simp only [writeLoop] at h
        split at h
        · simp at h
        · split at h
          · have hrest := ihw _ _ _ h
            simp only [List.length_drop, List.length_cons] at hrest ⊢
            omega
          · split at h
            · have hrest := ihc _ _ h
              simp only [List.length_cons]
              omega
            · simp at h
      | opened _ => simp [writeLoop] at h
      | created _ => simp [writeLoop] at h
      | read _ => simp [writeLoop] at h

/-- `content` of `fileFrom` has been moved, but only up to its first `n` bytes. -/
def movedPrefix (files : Files Path) (fileFrom fileTo : Path) (content : List UInt8) (n : ℕ) :
    Files Path :=
  Function.update (Function.update files fileTo (some (content.take n))) fileFrom none

variable {files files' : Files Path} {fileFrom fileTo : Path} {script : List Outcome}
  {result : Bool}

/-- A call that is done has left every file as it was, or it has moved what the
reads delivered before one of them did not succeed. -/
theorem MoveFile_done (h : MoveFile files fileFrom fileTo script = .done (result, files')) :
    (result = false ∧ files' = files ∧
      ∀ content len, files fileFrom = some content → files fileTo = none →
        failure script ≠ some (.read len)) ∨
    (result = true ∧ ∃ content len, files fileFrom = some content ∧ files fileTo = none ∧
      failure script = some (.read len) ∧
      files' = movedPrefix files fileFrom fileTo content (delivered script)) := by
  unfold MoveFile at h
  split at h
  next content hfrom hto =>
    split at h
    · simp at h
    · obtain ⟨rfl, rfl⟩ : false = result ∧ files = files' := by simpa using h
      exact .inl ⟨rfl, rfl, by simp [failure, Outcome.succeeds]⟩
    · simp at h
    · obtain ⟨rfl, rfl⟩ : false = result ∧ files = files' := by simpa using h
      exact .inl ⟨rfl, rfl, by simp [failure, Outcome.succeeds]⟩
    next rest =>
      obtain ⟨⟨copied, written⟩, hcopy, hfinish⟩ := Progress.map_eq_done.mp h
      have hopen : (Outcome.opened true).succeeds = true := rfl
      have hcreate : (Outcome.created true).succeeds = true := rfl
      rw [failure_of_succeeds hopen, failure_of_succeeds hcreate, delivered_of_succeeds hopen,
        delivered_of_succeeds hcreate]
      obtain ⟨rfl, hw, len, hf⟩ | ⟨rfl, count, hf⟩ := (loops_done rest).1 _ _ hcopy
      · obtain ⟨rfl, rfl⟩ := Prod.mk.inj hfinish
        refine .inr ⟨rfl, content, len, hfrom, hto, hf, ?_⟩
        simp [movedPrefix, hw, Outcome.bytesRead]
      · obtain ⟨rfl, rfl⟩ := Prod.mk.inj hfinish
        refine .inl ⟨rfl, ?_, by simp [hf]⟩
        simp [← hto]
    · simp at h
  next hcases =>
    obtain ⟨rfl, rfl⟩ : false = result ∧ files = files' := by simpa using h
    refine .inl ⟨rfl, rfl, ?_⟩
    intro content len hfrom hto
    exact (hcases content hfrom hto).elim

theorem MoveFile_waiting {content : List UInt8} (hfrom : files fileFrom = some content)
    (h : MoveFile files fileFrom fileTo script = .waiting) :
    script.length ≤ 2 * content.length + 2 := by
  unfold MoveFile at h
  split at h
  next content' hfrom' _ =>
    obtain rfl : content = content' := by simpa [hfrom] using hfrom'
    split at h
    · simp
    · simp at h
    · simp
    · simp at h
    next rest =>
      have hrest := (loops_waiting rest).1 _ _ (Progress.map_eq_waiting.mp h)
      simp only [List.length_cons]
      omega
    · simp at h
  · simp at h

/-- A read that does not succeed before any other failure comes when the reads
have delivered the whole source. -/
def ReadsToEnd (content : List UInt8) (script : List Outcome) : Prop :=
  ∀ len, failure script = some (.read len) → content.length ≤ delivered script

theorem movedPrefix_eq_iff {content : List UInt8} {n : ℕ} (h : fileFrom ≠ fileTo) :
    movedPrefix files fileFrom fileTo content n fileTo = some content ↔ content.length ≤ n := by
  simp [movedPrefix, Function.update_of_ne h.symm, List.take_eq_self_iff]

theorem MoveFile_complete_iff
    (h : MoveFile files fileFrom fileTo script = .done (result, files')) :
    (result = true → ∃ content, files fileFrom = some content ∧ files' fileTo = some content ∧
        files' fileFrom = none) ↔
      ∀ content, files fileFrom = some content → files fileTo = none →
        ReadsToEnd content script := by
  obtain ⟨rfl, -, hnot⟩ | ⟨rfl, content, len, hfrom, hto, hf, rfl⟩ := MoveFile_done h
  · refine ⟨?_, by simp⟩
    intro _ content hfrom hto len hf
    exact (hnot content len hfrom hto hf).elim
  · have hne : fileFrom ≠ fileTo := by
      intro he
      simp [he, hto] at hfrom
    refine ⟨?_, ?_⟩
    · intro hmoved content' hfrom' _ _ _
      obtain ⟨content'', hfrom'', hcopy, -⟩ := hmoved rfl
      obtain rfl : content = content' := by simpa [hfrom] using hfrom'
      obtain rfl : content = content'' := by simpa [hfrom] using hfrom''
      exact (movedPrefix_eq_iff hne).mp hcopy
    · intro hread _
      have hend := hread content hfrom hto len hf
      exact ⟨content, hfrom, (movedPrefix_eq_iff hne).mpr hend, by simp [movedPrefix]⟩

/-- Two bytes that one short read and one short write bring over, and the end
of the file. -/
def copied : List Outcome :=
  [.opened true, .created true, .read 2, .wrote 1, .wrote 1, .read 0]

def interrupted : List Outcome :=
  [.opened true, .created true, .read 1, .wrote 1, .read (-1)]

def oneFile : Files String := fun path ↦ if path = "from" then some [0x00, 0x01] else none

theorem MoveFile_complete_iff_copied :
    ∃ files', MoveFile oneFile "from" "to" copied = .done (true, files') ∧
      ((true = true → ∃ content, oneFile "from" = some content ∧ files' "to" = some content ∧
        files' "from" = none) ↔
      ∀ content, oneFile "from" = some content → oneFile "to" = none →
        ReadsToEnd content copied) :=
  ⟨_, rfl, MoveFile_complete_iff rfl⟩

theorem MoveFile_interrupted :
    ¬ ∀ (files files' : Files String) (fileFrom fileTo : String) (script : List Outcome)
      (result : Bool), MoveFile files fileFrom fileTo script = .done (result, files') →
      result = true → ∃ content, files fileFrom = some content ∧
        files' fileTo = some content ∧ files' fileFrom = none := by
  intro h
  obtain ⟨content, hfrom, hto, -⟩ := h oneFile _ "from" "to" interrupted true rfl rfl
  obtain rfl : [0x00, 0x01] = content := Option.some.inj hfrom
  exact absurd hto (by decide)

/-- A call that fails has changed no file. Once opened and created, it is done
after at most two outcomes for each byte of the source. -/
theorem MoveFile_failure :
    (∀ files', MoveFile files fileFrom fileTo script = .done (false, files') →
      files' = files) ∧
    (∀ content, files fileFrom = some content →
      MoveFile files fileFrom fileTo script = .waiting →
      script.length ≤ 2 * content.length + 2) := by
  refine ⟨?_, ?_⟩
  · intro files' h
    obtain ⟨-, hsame, -⟩ | ⟨hresult, -⟩ := MoveFile_done h
    · exact hsame
    · simp at hresult
  · intro content hfrom h
    exact MoveFile_waiting hfrom h

end Peripherals.UtilsFile
