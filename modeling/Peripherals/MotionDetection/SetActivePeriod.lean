import Peripherals.MotionDetection.ActivePeriod

namespace Peripherals.MotionDetection.SetActivePeriod

open Thunder

inductive CoreError
  | none
  | general
  deriving DecidableEq

/-- `returnResponse`; a field that is set hides the one that was there. -/
def returnResponse (successBoolean : Bool) (response : JsonObject) : CoreError × JsonObject :=
  (if successBoolean then .none else .general, ("success", .ofBool successBoolean) :: response)

/-- The memory behind `m_timeRangeArray`, with whatever is in it. -/
structure Memory (n : ℕ) where
  array : List Time
  length_eq : array.length = n

def Memory.write {n : ℕ} (memory : Memory n) (range : ℕ) (time : Time) : Memory n where
  array := memory.array.set range time
  length_eq := by rw [List.length_set, memory.length_eq]

/-- The loop over `rangeList`, from its element number `range` on: `parseStatus` and
what is in the memory. -/
def fillRanges {n : ℕ} : JsonArray → ℕ → Memory n → Bool × Memory n
  | [], _, memory => (true, memory)
  | rangeObj :: rest, range, memory =>
    if rangeObj.object.hasLabel "startTime" && rangeObj.object.hasLabel "endTime" then
      fillRanges rest (range + 1)
        (memory.write range
          ⟨getTime rangeObj.object "startTime", getTime rangeObj.object "endTime"⟩)
    else (false, memory)

variable {δ : Type*}

def setMotionEventsActivePeriod (driver : Driver δ) (malloc : (n : ℕ) → Option (Memory n)) (d : δ)
    (parameters response : JsonObject) : (CoreError × JsonObject) × δ :=
  if parameters.hasLabel "index" && parameters.hasLabel "nowTime" &&
      parameters.hasLabel "ranges" then
    let index := (parameters.get "index").string
    let rangeList := (parameters.get "ranges").array
    let nowTime := toInt (getNumberParameterObject parameters "nowTime")
    match malloc rangeList.length with
    | none => (returnResponse false response, d)
    | some memory =>
      let (parseStatus, memory) := fillRanges rangeList 0 memory
      if parseStatus then
        let (rc, d) := driver.SetActivePeriod d (cStr index)
          { m_nowTime := toUnsigned nowTime, m_rangeCount := rangeList.length,
            m_timeRangeArray := memory.array, count_eq := memory.length_eq.symm }
        if rc ≠ .success then (returnResponse false response, d)
        else (returnResponse true response, d)
      else (returnResponse false response, d)
  else (returnResponse false response, d)

def recording (driver : Driver δ) : Driver (δ × List (String × TimeRange)) where
  SetActivePeriod s index timeSet :=
    ((driver.SetActivePeriod s.1 index timeSet).1,
      (driver.SetActivePeriod s.1 index timeSet).2, s.2 ++ [(index, timeSet)])
  GetActivePeriod s := driver.GetActivePeriod s.1

def Complete (range : Variant) : Prop :=
  (range.object.hasLabel "startTime" && range.object.hasLabel "endTime") = true

def timeOf (range : Variant) : Time :=
  ⟨getTime range.object "startTime", getTime range.object "endTime"⟩

variable {n range : ℕ} {rest ranges : JsonArray} {times : List Time} {memory : Memory n}
  {driver : Driver δ} {malloc : (n : ℕ) → Option (Memory n)} {d : δ}
  {parameters response : JsonObject}

theorem take_write (hrange : range < n) (time : Time) :
    (memory.write range time).array.take (range + 1) = memory.array.take range ++ [time] := by
  have hlt : range < memory.array.length := memory.length_eq.symm ▸ hrange
  rw [Memory.write, List.take_add_one, List.take_set_of_le le_rfl,
    List.getElem?_set_self hlt, Option.toList_some]

theorem fillRanges_cons {rangeObj : Variant} (h : Complete rangeObj) :
    fillRanges (rangeObj :: rest) range memory =
      fillRanges rest (range + 1) (memory.write range (timeOf rangeObj)) := if_pos h

/-- What has been read of the ranges is in the memory up to the position of the loop. -/
theorem fillRanges_complete (hcomplete : ∀ range ∈ rest, Complete range)
    (hlength : range + rest.length = n) (hfilled : memory.array.take range = times) :
    (fillRanges rest range memory).1 = true ∧
      (fillRanges rest range memory).2.array = times ++ rest.map timeOf := by
  induction rest generalizing range memory times with
  | nil =>
    have hwhole : memory.array.length = range := memory.length_eq.trans hlength.symm
    rw [List.take_of_length_le hwhole.le] at hfilled
    exact ⟨rfl, by rw [List.map_nil, List.append_nil, ← hfilled]; rfl⟩
  | cons rangeObj rest ih =>
    obtain ⟨hobj, hrest⟩ := List.forall_mem_cons.mp hcomplete
    rw [List.length_cons] at hlength
    have hwrite : (memory.write range (timeOf rangeObj)).array.take (range + 1) =
        times ++ [timeOf rangeObj] := by
      rw [take_write (by omega), hfilled]
    have htail := ih hrest (by omega) hwrite
    rw [List.append_assoc, List.singleton_append, ← List.map_cons] at htail
    rw [fillRanges_cons hobj]
    exact htail

theorem fillRanges_incomplete (h : ¬ ∀ range ∈ rest, Complete range) :
    (fillRanges rest range memory).1 = false := by
  induction rest generalizing range memory with
  | nil => simp at h
  | cons rangeObj rest ih =>
    by_cases hobj : Complete rangeObj
    · rw [fillRanges_cons hobj]
      exact ih fun hrest ↦ h (List.forall_mem_cons.mpr ⟨hobj, hrest⟩)
    · exact congrArg Prod.fst (if_neg hobj)

def timeSetOf (parameters : JsonObject) : TimeRange where
  m_nowTime := toUnsigned (toInt (getNumberParameterObject parameters "nowTime"))
  m_rangeCount := (parameters.get "ranges").array.length
  m_timeRangeArray := (parameters.get "ranges").array.map timeOf
  count_eq := (List.length_map _).symm

theorem set_complete {memory : Memory (parameters.get "ranges").array.length}
    (hlabels : (parameters.hasLabel "index" && parameters.hasLabel "nowTime" &&
      parameters.hasLabel "ranges") = true)
    (hmalloc : malloc (parameters.get "ranges").array.length = some memory)
    (hcomplete : ∀ range ∈ (parameters.get "ranges").array, Complete range) :
    setMotionEventsActivePeriod driver malloc d parameters response =
      let (rc, d) := driver.SetActivePeriod d (cStr (parameters.get "index").string)
        (timeSetOf parameters)
      (returnResponse (rc = .success) response, d) := by
  have hfilled : (fillRanges (parameters.get "ranges").array 0 memory).1 = true ∧ _ :=
    fillRanges_complete hcomplete (Nat.zero_add _) List.take_zero
  rw [List.nil_append] at hfilled
  simp only [setMotionEventsActivePeriod, hlabels, if_true, hmalloc, hfilled.1, hfilled.2]
  rw [← timeSetOf]
  by_cases hrc : (driver.SetActivePeriod d (cStr (parameters.get "index").string)
      (timeSetOf parameters)).1 = .success
  · rw [if_neg (not_not_intro hrc), decide_eq_true hrc]
  · rw [if_pos hrc, decide_eq_false hrc]

theorem set_incomplete {memory : Memory (parameters.get "ranges").array.length}
    (hmalloc : malloc (parameters.get "ranges").array.length = some memory)
    (hincomplete : ¬ ∀ range ∈ (parameters.get "ranges").array, Complete range) :
    setMotionEventsActivePeriod driver malloc d parameters response =
      (returnResponse false response, d) := by
  simp only [setMotionEventsActivePeriod, hmalloc, fillRanges_incomplete hincomplete]
  split <;> rfl

/-- With the index and the memory in place, the loop over an array of any length decides
between one call of the driver with all ranges and none. -/
theorem set_cases (driver : Driver δ) (d : δ) (response : JsonObject)
    {memory : Memory (parameters.get "ranges").array.length}
    (hlabels : (parameters.hasLabel "index" && parameters.hasLabel "nowTime" &&
      parameters.hasLabel "ranges") = true)
    (hmalloc : malloc (parameters.get "ranges").array.length = some memory) :
    ((∀ range ∈ (parameters.get "ranges").array, Complete range) ∧
      setMotionEventsActivePeriod (recording driver) malloc (d, []) parameters response =
        let (rc, d) := driver.SetActivePeriod d (cStr (parameters.get "index").string)
          (timeSetOf parameters)
        (returnResponse (rc = .success) response, d,
          [(cStr (parameters.get "index").string, timeSetOf parameters)])) ∨
    ((¬ ∀ range ∈ (parameters.get "ranges").array, Complete range) ∧
      setMotionEventsActivePeriod (recording driver) malloc (d, []) parameters response =
        (returnResponse false response, d, [])) := by
  by_cases hcomplete : ∀ range ∈ (parameters.get "ranges").array, Complete range
  · exact .inl ⟨hcomplete, set_complete hlabels hmalloc hcomplete⟩
  · exact .inr ⟨hcomplete, set_incomplete hmalloc hcomplete⟩

theorem returnResponse_success (successBoolean : Bool) (response : JsonObject) :
    ((returnResponse successBoolean response).1 = .none ↔ successBoolean = true) ∧
      ((returnResponse successBoolean response).2.get "success").boolean = successBoolean := by
  refine ⟨?_, rfl⟩
  cases successBoolean <;> simp [returnResponse]

/-- What a request makes of its ranges, given its reply and the calls of the driver. -/
structure AllOrNothing (driver : Driver δ) (d : δ) (parameters : JsonObject)
    (ranges : JsonArray) (reply : CoreError × JsonObject) (calls : List (String × TimeRange)) :
    Prop where
  once : calls.length ≤ 1
  called_iff : calls ≠ [] ↔ ∀ range ∈ ranges, Complete range
  given : ∀ call ∈ calls, call.1 = cStr (parameters.get "index").string ∧
    call.2.m_nowTime = toUnsigned (toInt (getNumberParameterObject parameters "nowTime")) ∧
    call.2.m_rangeCount = ranges.length ∧ call.2.m_timeRangeArray = ranges.map timeOf
  incomplete : (∃ range ∈ ranges, ¬ Complete range) → calls = [] ∧ reply.1 = .general
  succeeds_iff : reply.1 = .none ↔
    ∃ call ∈ calls, (driver.SetActivePeriod d call.1 call.2).1 = .success
  reported : (reply.2.get "success").boolean = true ↔ reply.1 = .none

def rangesRequest (more : JsonArray) : JsonObject :=
  [("index", .ofString "FP_MD"), ("nowTime", .ofNat 1023),
    ("ranges", .ofArray (.ofObject (rangeObj ⟨100, 150⟩) :: .ofObject (rangeObj ⟨200, 250⟩) ::
      more))]

def endMissing : JsonArray :=
  [.ofObject [("startTime", .ofString "300")], .ofObject (rangeObj ⟨400, 450⟩)]

def zeros (n : ℕ) : Option (Memory n) := some ⟨List.replicate n ⟨0, 0⟩, List.length_replicate⟩

theorem parseRanges_complete (hcomplete : ∀ range ∈ ranges, Complete range) :
    parseRanges ranges = some (ranges.map timeOf) := by
  induction ranges with
  | nil => rfl
  | cons range ranges ih =>
    obtain ⟨hrange, hranges⟩ := List.forall_mem_cons.mp hcomplete
    rw [parseRanges, ih hranges]
    exact if_pos hrange

theorem parseRanges_incomplete (hincomplete : ¬ ∀ range ∈ ranges, Complete range) :
    parseRanges ranges = none := by
  induction ranges with
  | nil => simp at hincomplete
  | cons range ranges ih =>
    by_cases hrange : Complete range
    · have hranges := ih fun hrest ↦ hincomplete (List.forall_mem_cons.mpr ⟨hrange, hrest⟩)
      rw [parseRanges, hranges]
      exact ite_self _
    · exact if_neg hrange

/-- The loop over the memory does what the request is for: the ranges are read as a whole
and then set. -/
theorem setMotionEventsActivePeriod_refines (driver : Driver δ)
    (malloc : (n : ℕ) → Option (Memory n)) (d : δ) (parameters response : JsonObject) :
    let result := setMotionEventsActivePeriod driver malloc d parameters response
    (decide (result.1.1 = .none), result.2) =
      MotionDetection.setMotionEventsActivePeriod driver
        (malloc (parameters.get "ranges").array.length).isSome d parameters := by
  cases hlabels : parameters.hasLabel "index" && parameters.hasLabel "nowTime" &&
      parameters.hasLabel "ranges" with
  | false =>
    simp [setMotionEventsActivePeriod, MotionDetection.setMotionEventsActivePeriod, hlabels,
      returnResponse]
  | true =>
    cases hmalloc : malloc (parameters.get "ranges").array.length with
    | none =>
      simp [setMotionEventsActivePeriod, MotionDetection.setMotionEventsActivePeriod, hlabels,
        hmalloc, returnResponse]
    | some memory =>
      by_cases hcomplete : ∀ range ∈ (parameters.get "ranges").array, Complete range
      · have htimeSet : ({
            m_nowTime := toUnsigned (toInt (getNumberParameterObject parameters "nowTime"))
            m_rangeCount := ((parameters.get "ranges").array.map timeOf).length
            m_timeRangeArray := (parameters.get "ranges").array.map timeOf
            count_eq := rfl } : TimeRange) = timeSetOf parameters := by
          simp [timeSetOf]
        rw [set_complete hlabels hmalloc hcomplete]
        simp only [MotionDetection.setMotionEventsActivePeriod, hlabels, if_true,
          Option.isSome_some, parseRanges_complete hcomplete, htimeSet,
          (returnResponse_success _ _).1, Bool.decide_eq_true]
      · rw [set_incomplete hmalloc hcomplete]
        simp [MotionDetection.setMotionEventsActivePeriod, hlabels,
          parseRanges_incomplete hcomplete, returnResponse]

end Peripherals.MotionDetection.SetActivePeriod
