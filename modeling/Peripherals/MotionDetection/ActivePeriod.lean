import Peripherals.Thunder

namespace Peripherals.MotionDetection

open Thunder

/-- `MOTION_DETECTION_Result_t`, with one value for the failures that the code
does not name. -/
inductive MotionDetectionResult
  | success
  | intiFailure
  | failure
  deriving DecidableEq

structure Time where
  m_startTime : UInt32
  m_endTime : UInt32
  deriving DecidableEq

structure TimeRange where
  m_nowTime : UInt32
  m_rangeCount : ℕ
  m_timeRangeArray : List Time
  count_eq : m_rangeCount = m_timeRangeArray.length

structure Driver (δ : Type*) where
  SetActivePeriod : δ → String → TimeRange → MotionDetectionResult × δ
  GetActivePeriod : δ → MotionDetectionResult × TimeRange

structure Driver.StoresActivePeriod {δ : Type*} (driver : Driver δ) : Prop where
  set_success : ∀ d index timeSet, (driver.SetActivePeriod d index timeSet).1 = .success
  get_set : ∀ d index timeSet,
    driver.GetActivePeriod (driver.SetActivePeriod d index timeSet).2 = (.success, timeSet)

variable {δ : Type*}

/-- What the HAL reads behind `c_str()`. -/
def cStr (s : String) : String := .ofList (s.toList.takeWhile (· ≠ '\x00'))

/-- `getNumberParameterObject` into an `unsigned int`. -/
def getTime (rangeObj : JsonObject) (label : String) : UInt32 :=
  toUnsigned (getNumberParameterObject rangeObj label)

/-- The loop over `rangeList`; `none` is a range that lacks a parameter. -/
def parseRanges : JsonArray → Option (List Time)
  | [] => some []
  | range :: rangeList =>
    if range.object.hasLabel "startTime" && range.object.hasLabel "endTime" then
      (parseRanges rangeList).map
        (⟨getTime range.object "startTime", getTime range.object "endTime"⟩ :: ·)
    else none

/-- The value of `success` in the response; `allocates` tells whether `malloc`
returns memory. -/
def setMotionEventsActivePeriod (driver : Driver δ) (allocates : Bool) (d : δ)
    (parameters : JsonObject) : Bool × δ :=
  if parameters.hasLabel "index" && parameters.hasLabel "nowTime" &&
      parameters.hasLabel "ranges" then
    let index := (parameters.get "index").string
    let rangeList := (parameters.get "ranges").array
    let nowTime := toInt (getNumberParameterObject parameters "nowTime")
    if allocates then
      match parseRanges rangeList with
      | some array =>
        let (rc, d) := driver.SetActivePeriod d (cStr index)
          { m_nowTime := toUnsigned nowTime, m_rangeCount := array.length,
            m_timeRangeArray := array, count_eq := rfl }
        (rc = .success, d)
      | none => (false, d)
    else (false, d)
  else (false, d)

def rangeObj (time : Time) : JsonObject :=
  [("startTime", .ofString (toString time.m_startTime.toNat)),
    ("endTime", .ofString (toString time.m_endTime.toNat))]

/-- The response, with the value of `success` in it apart. -/
def getMotionEventsActivePeriod (driver : Driver δ) (d : δ) : Bool × JsonObject :=
  let (rc, timeSet) := driver.GetActivePeriod d
  if rc = .success then
    if 0 < timeSet.m_rangeCount then
      (true, [("ranges", .ofArray
        ((timeSet.m_timeRangeArray.take timeSet.m_rangeCount).map fun time ↦
          .ofObject (rangeObj time)))])
    else (true, [("message", .ofString "No Active Periods Set")])
  else (false, [])

def resend (index : String) (nowTime : Variant) (response : JsonObject) : JsonObject :=
  [("index", .ofString index), ("nowTime", nowTime), ("ranges", response.get "ranges")]

/-- What a time becomes that has been reported and is then set. -/
def reread (t : UInt32) : UInt32 := if t.toNat < 2 ^ 31 then t else 0

theorem getTime_ofString {o : JsonObject} {label : String} {t : UInt32}
    (h : o.get label = .ofString (toString t.toNat)) : getTime o label = reread t := by
  have hstoi : getNumberParameterObject o label = (stoi (toString t.toNat)).getD 0 := by
    simp [getNumberParameterObject, h, Variant.ofString, Variant.content, Variant.string]
  rw [getTime, hstoi, stoi_toString, reread]
  split
  · exact toUnsigned_toNat t
  · rfl

theorem getTime_ofNat {o : JsonObject} {label : String} {t : UInt32}
    (h : o.get label = .ofNat t.toNat) : getTime o label = t := by
  have hnumber : getNumberParameterObject o label = t.toNat := by
    simp [getNumberParameterObject, h, Variant.ofNat, Variant.content, Variant.number]
  rw [getTime, hnumber, toUnsigned_toNat]

theorem reread_eq_iff_lt {t : UInt32} : reread t = t ↔ t.toNat < 2 ^ 31 := by
  unfold reread
  split
  next h => exact ⟨fun _ ↦ h, fun _ ↦ rfl⟩
  next h =>
    refine ⟨?_, fun hlt ↦ (h hlt).elim⟩
    intro h0
    simp [← h0]

def rereadTime (time : Time) : Time := ⟨reread time.m_startTime, reread time.m_endTime⟩

theorem parseRanges_reported (times : List Time) :
    parseRanges (times.map fun time ↦ .ofObject (rangeObj time)) =
      some (times.map rereadTime) := by
  induction times with
  | nil => rfl
  | cons time times ih =>
    have hstart : getTime (rangeObj time) "startTime" = reread time.m_startTime :=
      getTime_ofString rfl
    have hend : getTime (rangeObj time) "endTime" = reread time.m_endTime :=
      getTime_ofString rfl
    have hobject : (Variant.ofObject (rangeObj time)).object = rangeObj time := rfl
    have hlabels : ((rangeObj time).hasLabel "startTime" && (rangeObj time).hasLabel "endTime")
        = true := rfl
    rw [List.map_cons, parseRanges, hobject, hlabels, if_pos rfl, ih, hstart, hend]
    rfl

theorem map_rereadTime_eq_iff {times : List Time} :
    times.map rereadTime = times ↔
      ∀ time ∈ times, time.m_startTime.toNat < 2 ^ 31 ∧ time.m_endTime.toNat < 2 ^ 31 := by
  have htime : ∀ time, rereadTime time = time ↔
      time.m_startTime.toNat < 2 ^ 31 ∧ time.m_endTime.toNat < 2 ^ 31 := by
    intro time
    rw [← reread_eq_iff_lt, ← reread_eq_iff_lt]
    cases time
    simp [rereadTime]
  induction times with
  | nil => simp
  | cons time times ih => simp only [List.map_cons, List.cons.injEq, htime, ih,
      List.forall_mem_cons]

def resent (driver : Driver δ) (d : δ) (index : String) (nowTime : Variant) : Bool × δ :=
  setMotionEventsActivePeriod driver true d
    (resend index nowTime (getMotionEventsActivePeriod driver d).2)

variable {driver : Driver δ} {d : δ} {timeSet : TimeRange} {t : UInt32}

theorem resent_eq (hstore : driver.StoresActivePeriod)
    (hget : driver.GetActivePeriod d = (.success, timeSet))
    (hne : timeSet.m_timeRangeArray ≠ []) (index : String) (nowTime : Variant) :
    (resent driver d index nowTime).1 = true ∧
      (driver.GetActivePeriod (resent driver d index nowTime).2).2.m_timeRangeArray =
        timeSet.m_timeRangeArray.map rereadTime := by
  have hpos : 0 < timeSet.m_rangeCount := by
    rw [timeSet.count_eq]
    exact List.length_pos_iff.mpr hne
  have hranges : ((resend index nowTime (getMotionEventsActivePeriod driver d).2).get
      "ranges").array = timeSet.m_timeRangeArray.map fun time ↦ .ofObject (rangeObj time) := by
    simp only [getMotionEventsActivePeriod, hget, if_pos hpos]
    rw [List.take_of_length_le (Nat.le_of_eq timeSet.count_eq.symm)]
    rfl
  have hlabels : ((resend index nowTime (getMotionEventsActivePeriod driver d).2).hasLabel
      "index" &&
      (resend index nowTime (getMotionEventsActivePeriod driver d).2).hasLabel "nowTime" &&
      (resend index nowTime (getMotionEventsActivePeriod driver d).2).hasLabel "ranges") = true :=
    rfl
  unfold resent setMotionEventsActivePeriod
  simp only [hlabels, hranges, parseRanges_reported]
  simp [hstore.set_success, hstore.get_set]

/-- It makes no difference whether the time comes as a number or as its decimal. -/
def SameEitherWay (t : UInt32) : Prop :=
  ∀ (o o' : JsonObject) (label : String), o.get label = .ofNat t.toNat →
    o'.get label = .ofString (toString t.toNat) → getTime o label = getTime o' label

theorem sameEitherWay_iff_lt : SameEitherWay t ↔ t.toNat < 2 ^ 31 := by
  rw [← reread_eq_iff_lt]
  refine ⟨?_, ?_⟩
  · intro h
    have ht := h [("startTime", .ofNat t.toNat)] [("startTime", .ofString (toString t.toNat))]
      "startTime" rfl rfl
    rw [getTime_ofNat rfl, getTime_ofString rfl] at ht
    exact ht.symm
  · intro h o o' label ho ho'
    rw [getTime_ofNat ho, getTime_ofString ho', h]

def memory : Driver TimeRange where
  SetActivePeriod _ _ timeSet := (.success, timeSet)
  GetActivePeriod timeSet := (.success, timeSet)

theorem memory_storesActivePeriod : memory.StoresActivePeriod where
  set_success _ _ _ := rfl
  get_set _ _ _ := rfl

def oneRange (time : Time) : TimeRange where
  m_nowTime := 0
  m_rangeCount := 1
  m_timeRangeArray := [time]
  count_eq := rfl

end Peripherals.MotionDetection
