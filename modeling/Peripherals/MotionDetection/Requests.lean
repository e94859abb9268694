import Mathlib.Logic.Function.Basic
import Peripherals.Execution
import Peripherals.MotionDetection.SetActivePeriod

namespace Peripherals.MotionDetection.Requests

open Function Execution Thunder SetActivePeriod

variable {δ : Type*}

/-- The HAL functions for arming, the no-motion period and the sensitivity, over
the states `δ` of the driver. What a query leaves unwritten is `none`. -/
structure Hal (δ : Type*) where
  ArmMotionDetector : δ → Int → String → MotionDetectionResult × δ
  DisarmMotionDetector : δ → String → MotionDetectionResult × δ
  IsMotionDetectorArmed : δ → String → MotionDetectionResult × Option Bool
  SetNoMotionPeriod : δ → String → UInt32 → MotionDetectionResult × δ
  GetNoMotionPeriod : δ → String → MotionDetectionResult × Option UInt32
  SetSensitivity : δ → String → String → Int → MotionDetectionResult × δ
  GetSensitivity : δ → String → MotionDetectionResult × Option String × Option Int

variable (hal : Hal δ) (d : δ) (parameters response : JsonObject)

def arm : (CoreError × JsonObject) × δ :=
  let index := (parameters.get "index").string
  let sMode := (parameters.get "mode").string
  match stoi sMode with
  | none => (returnResponse false response, d)
  | some mode =>
    let (rc, d) := hal.ArmMotionDetector d mode (cStr index)
    if rc ≠ .success then (returnResponse false response, d)
    else (returnResponse true response, d)

def disarm : (CoreError × JsonObject) × δ :=
  let index := (parameters.get "index").string
  let (rc, d) := hal.DisarmMotionDetector d (cStr index)
  if rc ≠ .success then (returnResponse false response, d)
  else (returnResponse true response, d)

def isarmed : (CoreError × JsonObject) × δ :=
  let index := (parameters.get "index").string
  let (rc, written) := hal.IsMotionDetectorArmed d (cStr index)
  let armState := written.getD false
  if rc ≠ .success then (returnResponse false (("state", .ofBool armState) :: response), d)
  else (returnResponse true (("state", .ofBool armState) :: response), d)

def setNoMotionPeriod : (CoreError × JsonObject) × δ :=
  let index := (parameters.get "index").string
  let sPeriod := (parameters.get "period").string
  match stoi sPeriod with
  | none => (returnResponse false response, d)
  | some period =>
    let (rc, d) := hal.SetNoMotionPeriod d (cStr index) (toUnsigned period)
    if rc ≠ .success then (returnResponse false response, d)
    else (returnResponse true response, d)

def getNoMotionPeriod : (CoreError × JsonObject) × δ :=
  let index := (parameters.get "index").string
  let (rc, written) := hal.GetNoMotionPeriod d (cStr index)
  let period := written.getD 0
  if rc ≠ .success then (returnResponse false response, d)
  else (returnResponse true (("period", .ofString (toString period.toNat)) :: response), d)

def setSensitivity : (CoreError × JsonObject) × δ :=
  let index := (parameters.get "index").string
  let (sensitivity, inferredMode) : String × Int :=
    if parameters.hasLabel "name" then ((parameters.get "name").string, 2) else ("", 0)
  let (sensitivity, inferredMode) : String × Int :=
    if parameters.hasLabel "value" then ((parameters.get "value").string, 1)
    else (sensitivity, inferredMode)
  if inferredMode = 0 then (returnResponse false response, d)
  else
    let (rc, d) := hal.SetSensitivity d (cStr index) (cStr sensitivity) inferredMode
    if rc ≠ .success then (returnResponse false response, d)
    else (returnResponse true response, d)

def getSensitivity : (CoreError × JsonObject) × δ :=
  let index := (parameters.get "index").string
  let (rc, sensitivity, writtenMode) := hal.GetSensitivity d (cStr index)
  let currentMode := writtenMode.getD 0
  if rc ≠ .success then (returnResponse false response, d)
  else match sensitivity with
    | none => (returnResponse true response, d)
    | some rSensitivity =>
      let response :=
        if currentMode = 1 then ("value", .ofString rSensitivity) :: response
        else if currentMode = 2 then ("name", .ofString rSensitivity) :: response
        else response
      (returnResponse true response, d)

inductive Method
  | arm | disarm | isarmed | setNoMotionPeriod | getNoMotionPeriod | setSensitivity
  | getSensitivity

def Method.handler : Method →
    Hal δ → δ → JsonObject → JsonObject → (CoreError × JsonObject) × δ
  | .arm => Requests.arm
  | .disarm => Requests.disarm
  | .isarmed => Requests.isarmed
  | .setNoMotionPeriod => Requests.setNoMotionPeriod
  | .getNoMotionPeriod => Requests.getNoMotionPeriod
  | .setSensitivity => Requests.setSensitivity
  | .getSensitivity => Requests.getSensitivity

/-- A request with the parameters of a client, and whether it is answered with
success. -/
structure Request where
  method : Method
  parameters : JsonObject
  success : Bool

def step (d : δ) (r : Request) : Option δ :=
  let (reply, d) := r.method.handler hal d r.parameters []
  if r.success = decide (reply.1 = .none) then some d else none

structure Sensor where
  armed : Bool
  noMotionPeriod : UInt32
  sensitivity : Option String
  currentMode : Int

/-- The driver keeps a record for each detector. A call that succeeds sets its own
field, one that fails sets nothing, and the queries return the fields. -/
structure Hal.Keeps (sensor : δ → String → Sensor) : Prop where
  arm : ∀ d mode index, sensor (hal.ArmMotionDetector d mode index).2 =
    if (hal.ArmMotionDetector d mode index).1 = .success then
      update (sensor d) index { sensor d index with armed := true }
    else sensor d
  disarm : ∀ d index, sensor (hal.DisarmMotionDetector d index).2 =
    if (hal.DisarmMotionDetector d index).1 = .success then
      update (sensor d) index { sensor d index with armed := false }
    else sensor d
  setNoMotionPeriod : ∀ d index period, sensor (hal.SetNoMotionPeriod d index period).2 =
    if (hal.SetNoMotionPeriod d index period).1 = .success then
      update (sensor d) index { sensor d index with noMotionPeriod := period }
    else sensor d
  setSensitivity : ∀ d index sensitivity mode,
    sensor (hal.SetSensitivity d index sensitivity mode).2 =
      if (hal.SetSensitivity d index sensitivity mode).1 = .success then
        update (sensor d) index
          { sensor d index with sensitivity := some sensitivity, currentMode := mode }
      else sensor d
  isArmed : ∀ d index armed, hal.IsMotionDetectorArmed d index = (.success, armed) →
    armed = some (sensor d index).armed
  getNoMotionPeriod : ∀ d index period, hal.GetNoMotionPeriod d index = (.success, period) →
    period = some (sensor d index).noMotionPeriod
  getSensitivity : ∀ d index result, hal.GetSensitivity d index = (.success, result) →
    result = ((sensor d index).sensitivity, some (sensor d index).currentMode)

def sensitivityOf (parameters : JsonObject) : String × Int :=
  if parameters.hasLabel "value" then (cStr (parameters.get "value").string, 1)
  else (cStr (parameters.get "name").string, 2)

def Request.effect (r : Request) (sensor : String → Sensor) : String → Sensor :=
  let index := cStr (r.parameters.get "index").string
  match r.method with
  | .arm => update sensor index { sensor index with armed := true }
  | .disarm => update sensor index { sensor index with armed := false }
  | .setNoMotionPeriod => update sensor index
      { sensor index with
        noMotionPeriod := toUnsigned ((stoi (r.parameters.get "period").string).getD 0) }
  | .setSensitivity => update sensor index
      { sensor index with
        sensitivity := some (sensitivityOf r.parameters).1
        currentMode := (sensitivityOf r.parameters).2 }
  | .isarmed | .getNoMotionPeriod | .getSensitivity => sensor

/-- The detectors after the requests `tr`, of which only the successful ones count. -/
def after (tr : List Request) (sensor : String → Sensor) : String → Sensor :=
  tr.foldl (fun sensor r ↦ if r.success then r.effect sensor else sensor) sensor

variable {hal : Hal δ} {d d' : δ} {parameters response : JsonObject} {sensor : δ → String → Sensor}
  {r : Request} {tr : List Request}

section Reply

variable (rc : MotionDetectionResult) (d : δ) (failed answered : JsonObject)

theorem reply_state :
    (if rc ≠ .success then (returnResponse false failed, d)
      else (returnResponse true answered, d)).2 = d := by
  split <;> rfl

/-- The reply follows the result of the HAL. -/
theorem reply_none_iff :
    (if rc ≠ .success then (returnResponse false failed, d)
      else (returnResponse true answered, d)).1.1 = .none ↔ rc = .success := by
  by_cases hrc : rc = .success <;> simp [hrc, returnResponse]

end Reply

theorem step_cases (hs : step hal d r = some d') :
    d' = (r.method.handler hal d r.parameters []).2 ∧
      (r.success = true ↔ (r.method.handler hal d r.parameters []).1.1 = .none) := by
  simp only [step] at hs
  split at hs
  · rename_i hsuccess
    exact ⟨(Option.some.inj hs).symm, by rw [hsuccess, decide_eq_true_iff]⟩
  · cases hs

theorem arm_effect (hkeeps : hal.Keeps sensor) (parameters response : JsonObject) :
    sensor (arm hal d parameters response).2 =
      if (arm hal d parameters response).1.1 = .none then
        Request.effect ⟨.arm, parameters, true⟩ (sensor d)
      else sensor d := by
  cases hmode : stoi (parameters.get "mode").string with
  | none => simp [arm, hmode, returnResponse]
  | some mode =>
    have hkept := hkeeps.arm d mode (cStr (parameters.get "index").string)
    simp only [arm, hmode]
    rw [reply_state]
    simp only [reply_none_iff]
    exact hkept

theorem disarm_effect (hkeeps : hal.Keeps sensor) (parameters response : JsonObject) :
    sensor (disarm hal d parameters response).2 =
      if (disarm hal d parameters response).1.1 = .none then
        Request.effect ⟨.disarm, parameters, true⟩ (sensor d)
      else sensor d := by
  have hkept := hkeeps.disarm d (cStr (parameters.get "index").string)
  simp only [disarm]
  rw [reply_state]
  simp only [reply_none_iff]
  exact hkept

theorem setNoMotionPeriod_effect (hkeeps : hal.Keeps sensor) (parameters response : JsonObject) :
    sensor (setNoMotionPeriod hal d parameters response).2 =
      if (setNoMotionPeriod hal d parameters response).1.1 = .none then
        Request.effect ⟨.setNoMotionPeriod, parameters, true⟩ (sensor d)
      else sensor d := by
  cases hperiod : stoi (parameters.get "period").string with
  | none => simp [setNoMotionPeriod, hperiod, returnResponse]
  | some period =>
    have hkept := hkeeps.setNoMotionPeriod d (cStr (parameters.get "index").string)
      (toUnsigned period)
    simp only [setNoMotionPeriod, hperiod]
    rw [reply_state]
    simp only [reply_none_iff, Request.effect, hperiod, Option.getD_some]
    exact hkept

/-- With a name or a value the HAL is called, and the value comes first. -/
theorem setSensitivity_eq (hal : Hal δ) (d : δ) (parameters response : JsonObject) :
    setSensitivity hal d parameters response =
      if parameters.hasLabel "name" || parameters.hasLabel "value" then
        let (rc, d) := hal.SetSensitivity d (cStr (parameters.get "index").string)
          (sensitivityOf parameters).1 (sensitivityOf parameters).2
        if rc ≠ .success then (returnResponse false response, d)
        else (returnResponse true response, d)
      else (returnResponse false response, d) := by
  cases hname : parameters.hasLabel "name" <;> cases hvalue : parameters.hasLabel "value" <;>
    simp [setSensitivity, sensitivityOf, hname, hvalue]

theorem setSensitivity_effect (hkeeps : hal.Keeps sensor) (parameters response : JsonObject) :
    sensor (setSensitivity hal d parameters response).2 =
      if (setSensitivity hal d parameters response).1.1 = .none then
        Request.effect ⟨.setSensitivity, parameters, true⟩ (sensor d)
      else sensor d := by
  rw [setSensitivity_eq]
  split
  · have hkept := hkeeps.setSensitivity d (cStr (parameters.get "index").string)
      (sensitivityOf parameters).1 (sensitivityOf parameters).2
    dsimp only
    rw [reply_state]
    simp only [reply_none_iff]
    exact hkept
  · rfl

theorem isarmed_state : (isarmed hal d parameters response).2 = d := reply_state ..

theorem getNoMotionPeriod_state : (getNoMotionPeriod hal d parameters response).2 = d :=
  reply_state ..

theorem getSensitivity_state : (getSensitivity hal d parameters response).2 = d := by
  unfold getSensitivity
  dsimp only
  split
  · rfl
  · split <;> rfl

/-- A request that succeeds has its effect on the detectors, and one that fails has none. -/
theorem step_sensor (hkeeps : hal.Keeps sensor) (hs : step hal d r = some d') :
    sensor d' = if r.success then r.effect (sensor d) else sensor d := by
  obtain ⟨rfl, hsuccess⟩ := step_cases hs
  obtain ⟨method, parameters, success⟩ := r
  simp only [hsuccess]
  cases method with
  | arm => exact arm_effect hkeeps parameters []
  | disarm => exact disarm_effect hkeeps parameters []
  | isarmed =>
    rw [show (Method.isarmed.handler hal d parameters []).2 = d from isarmed_state]
    exact (ite_self _).symm
  | setNoMotionPeriod => exact setNoMotionPeriod_effect hkeeps parameters []
  | getNoMotionPeriod =>
    rw [show (Method.getNoMotionPeriod.handler hal d parameters []).2 = d from
      getNoMotionPeriod_state]
    exact (ite_self _).symm
  | setSensitivity => exact setSensitivity_effect hkeeps parameters []
  | getSensitivity =>
    rw [show (Method.getSensitivity.handler hal d parameters []).2 = d from getSensitivity_state]
    exact (ite_self _).symm

/-- The plugin over such a driver is the table of detectors that its requests describe. -/
theorem run_sensor {d₀ : δ} (hkeeps : hal.Keeps sensor) (h : Run (step hal) d₀ tr d) :
    sensor d = after tr (sensor d₀) := by
  induction h with
  | nil => rfl
  | snoc _ hs ih =>
    rw [step_sensor hkeeps hs, ih, after, after, List.foldl_append]
    rfl

structure Tells (hal : Hal δ) (d : δ) (parameters : JsonObject) (sensor : Sensor) : Prop where
  armed : (isarmed hal d parameters []).1.1 = .none →
    (isarmed hal d parameters []).1.2.get "state" = .ofBool sensor.armed
  period : (getNoMotionPeriod hal d parameters []).1.1 = .none →
    (getNoMotionPeriod hal d parameters []).1.2.get "period" =
      .ofString (toString sensor.noMotionPeriod.toNat)
  sensitivity : (getSensitivity hal d parameters []).1.1 = .none →
    (getSensitivity hal d parameters []).1.2 = ("success", .ofBool true) ::
      match sensor.sensitivity, sensor.currentMode with
      | some text, 1 => [("value", .ofString text)]
      | some text, 2 => [("name", .ofString text)]
      | _, _ => []

theorem tells_sensor (hkeeps : hal.Keeps sensor) (parameters : JsonObject) :
    Tells hal d parameters (sensor d (cStr (parameters.get "index").string)) := by
  generalize hindex : cStr (parameters.get "index").string = index
  refine ⟨?_, ?_, ?_⟩
  · intro hnone
    rcases hquery : hal.IsMotionDetectorArmed d index with ⟨rc, written⟩
    simp only [isarmed, hindex, hquery] at hnone ⊢
    obtain rfl := (reply_none_iff ..).mp hnone
    rw [hkeeps.isArmed d index written hquery]
    rfl
  · intro hnone
    rcases hquery : hal.GetNoMotionPeriod d index with ⟨rc, written⟩
    simp only [getNoMotionPeriod, hindex, hquery] at hnone ⊢
    obtain rfl := (reply_none_iff ..).mp hnone
    rw [hkeeps.getNoMotionPeriod d index written hquery]
    rfl
  · intro hnone
    rcases hquery : hal.GetSensitivity d index with ⟨rc, result⟩
    have hrc : rc = .success := by
      by_contra hne
      simp [getSensitivity, hindex, hquery, hne, returnResponse] at hnone
    subst hrc
    have hresult := hkeeps.getSensitivity d index result hquery
    rw [hresult] at hquery
    simp only [getSensitivity, hindex, hquery, ne_eq, not_true_eq_false, if_false,
      Option.getD_some]
    cases (sensor d index).sensitivity with
    | none => rfl
    | some text =>
      by_cases hone : (sensor d index).currentMode = 1
      · simp [hone, returnResponse]
      · by_cases htwo : (sensor d index).currentMode = 2
        · simp [htwo, returnResponse]
        · simp only [hone, htwo, if_false, returnResponse]
          split <;> simp_all

/-- After any requests the queries that succeed tell what the successful requests
before them have set. -/
theorem replies_tell {d₀ : δ} (hkeeps : hal.Keeps sensor) (h : Run (step hal) d₀ tr d)
    (parameters : JsonObject) :
    Tells hal d parameters (after tr (sensor d₀) (cStr (parameters.get "index").string)) := by
  rw [← run_sensor hkeeps h]
  exact tells_sensor hkeeps parameters

def record : Hal (String → Sensor) where
  ArmMotionDetector d _ index := (.success, update d index { d index with armed := true })
  DisarmMotionDetector d index := (.success, update d index { d index with armed := false })
  IsMotionDetectorArmed d index := (.success, some (d index).armed)
  SetNoMotionPeriod d index period :=
    (.success, update d index { d index with noMotionPeriod := period })
  GetNoMotionPeriod d index := (.success, some (d index).noMotionPeriod)
  SetSensitivity d index sensitivity mode := (.success, update d index
    { d index with sensitivity := some sensitivity, currentMode := mode })
  GetSensitivity d index := (.success, (d index).sensitivity, some (d index).currentMode)

theorem record_keeps : record.Keeps id where
  arm _ _ _ := (if_pos rfl).symm
  disarm _ _ := (if_pos rfl).symm
  setNoMotionPeriod _ _ _ := (if_pos rfl).symm
  setSensitivity _ _ _ _ := (if_pos rfl).symm
  isArmed _ _ _ h := (congrArg Prod.snd h).symm
  getNoMotionPeriod _ _ _ h := (congrArg Prod.snd h).symm
  getSensitivity _ _ _ h := (congrArg Prod.snd h).symm

def unset : String → Sensor := fun _ ↦ ⟨false, 0, none, 0⟩

/-- A period below zero, a mode that is not a number, and both kinds of sensitivity. -/
def settings : List Request :=
  [⟨.setNoMotionPeriod, [("index", .ofString "FP_MD"), ("period", .ofString "-1")], true⟩,
    ⟨.arm, [("index", .ofString "FP_MD"), ("mode", .ofString "on")], false⟩,
    ⟨.setSensitivity, [("index", .ofString "FP_MD"), ("name", .ofString "high"),
      ("value", .ofString "40")], true⟩]

theorem settings_run : ∃ d, Run (step record) unset settings d :=
  exists_run (by decide +kernel)

theorem replies_tell_settings : ∃ d, Run (step record) unset settings d ∧
    Tells record d [("index", .ofString "FP_MD")]
      (after settings unset
        (cStr (JsonObject.get [("index", .ofString "FP_MD")] "index").string)) :=
  settings_run.imp fun _ h ↦ ⟨h, replies_tell record_keeps h [("index", .ofString "FP_MD")]⟩

def periodSet (index : String) (r : Request) : Option Int :=
  match r.method with
  | .setNoMotionPeriod =>
    if r.success && cStr (r.parameters.get "index").string == index then
      stoi (r.parameters.get "period").string
    else none
  | _ => none

def periodOf (parameters : JsonObject) : Option UInt32 :=
  (stoi (parameters.get "period").string).map toUnsigned

def Hal.recording (hal : Hal δ) : Hal (δ × List (String × UInt32)) where
  ArmMotionDetector s mode index :=
    ((hal.ArmMotionDetector s.1 mode index).1, (hal.ArmMotionDetector s.1 mode index).2, s.2)
  DisarmMotionDetector s index :=
    ((hal.DisarmMotionDetector s.1 index).1, (hal.DisarmMotionDetector s.1 index).2, s.2)
  IsMotionDetectorArmed s := hal.IsMotionDetectorArmed s.1
  SetNoMotionPeriod s index period :=
    ((hal.SetNoMotionPeriod s.1 index period).1, (hal.SetNoMotionPeriod s.1 index period).2,
      s.2 ++ [(index, period)])
  GetNoMotionPeriod s := hal.GetNoMotionPeriod s.1
  SetSensitivity s index sensitivity mode :=
    ((hal.SetSensitivity s.1 index sensitivity mode).1,
      (hal.SetSensitivity s.1 index sensitivity mode).2, s.2)
  GetSensitivity s := hal.GetSensitivity s.1

theorem setNoMotionPeriod_calls (hal : Hal δ) (d : δ) (parameters response : JsonObject) :
    (setNoMotionPeriod hal.recording (d, []) parameters response).2.2 =
      ((periodOf parameters).map (cStr (parameters.get "index").string, ·)).toList := by
  cases hperiod : stoi (parameters.get "period").string with
  | none => simp [setNoMotionPeriod, periodOf, hperiod]
  | some period =>
    simp only [setNoMotionPeriod, hperiod]
    rw [reply_state]
    simp [Hal.recording, periodOf, hperiod]

def resend (hal : Hal δ) (d : δ) (parameters : JsonObject) : JsonObject :=
  [("index", parameters.get "index"),
    ("period", (getNoMotionPeriod hal d parameters []).1.2.get "period")]

theorem step_period (hkeeps : hal.Keeps sensor) (index : String) (hs : step hal d r = some d') :
    (sensor d' index).noMotionPeriod =
      ((periodSet index r).map toUnsigned).getD (sensor d index).noMotionPeriod := by
  rw [step_sensor hkeeps hs]
  obtain ⟨-, hsuccess⟩ := step_cases hs
  obtain ⟨method, parameters, success⟩ := r
  cases success with
  | false => cases method <;> simp [periodSet]
  | true =>
    by_cases hindex : cStr (parameters.get "index").string = index
    · subst hindex
      cases method with
      | setNoMotionPeriod =>
        cases hperiod : stoi (parameters.get "period").string with
        | none => simp [Method.handler, setNoMotionPeriod, hperiod, returnResponse] at hsuccess
        | some period => simp [Request.effect, periodSet, hperiod]
      | _ => simp [Request.effect, periodSet]
    · cases method <;> simp [Request.effect, periodSet, hindex, Ne.symm hindex]

theorem stoi_range {s : String} {n : Int} (h : stoi s = some n) : -2 ^ 31 ≤ n ∧ n < 2 ^ 31 := by
  simp only [stoi, Option.ite_none_left_eq_some, Option.ite_none_right_eq_some,
    Option.some.injEq] at h
  obtain ⟨-, hrange, rfl⟩ := h
  exact hrange

/-- The decimal of a period that is set to a number is one of an `int` if the number
is not negative. -/
theorem stoi_toUnsigned {n : Int} (hn : -2 ^ 31 ≤ n ∧ n < 2 ^ 31) :
    (stoi (toString (toUnsigned n).toNat)).map toUnsigned =
      if 0 ≤ n then some (toUnsigned n) else none := by
  rw [stoi_toString]
  by_cases hpos : 0 ≤ n
  · obtain ⟨k, rfl⟩ := Int.eq_ofNat_of_zero_le hpos
    have hk : (toUnsigned k).toNat = k := by
      rw [toUnsigned, UInt32.ofInt, Int.emod_eq_of_lt hpos (by omega), Int.toNat_natCast,
        UInt32.toNat_ofNat', Nat.mod_eq_of_lt (by omega)]
    rw [hk, if_pos (by omega), if_pos hpos]
    rfl
  · have hk : ((toUnsigned n).toNat : Int) = n + 2 ^ 32 := by
      have hmod : n % 2 ^ 32 = n + 2 ^ 32 := by omega
      rw [toUnsigned, UInt32.ofInt, hmod, UInt32.toNat_ofNat', Nat.mod_eq_of_lt (by omega)]
      omega
    rw [if_neg (by omega), if_neg hpos]
    rfl

end Peripherals.MotionDetection.Requests
