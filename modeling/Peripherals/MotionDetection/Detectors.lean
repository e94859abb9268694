import Mathlib.Data.List.OfFn
import Mathlib.Tactic.Tauto
import Peripherals.MotionDetection.SetActivePeriod

namespace Peripherals.MotionDetection.Detectors

open Thunder SetActivePeriod

/-- `SENSITIVITY_IDENTIFIERS`, `SENSITIVITY_IDENTIFIER_1` and the modes, as the header of the
driver gives them. -/
structure Constants where
  identifiers : ℕ
  identifier1 : Fin identifiers
  modeLevels : Int
  modeInt : Int
  modes_ne : modeInt ≠ modeLevels

structure CurrentSensorSettings (identifiers : ℕ) where
  m_sensorIndex : String
  m_sensorDescription : String
  m_sensorType : String
  m_sensorDistance : Int
  m_sensorAngle : Int
  m_sensitivityMode : Int
  m_sensitivity : Fin identifiers → String

/-- A field that is set hides the one that was there. -/
def setResponseArray (response : JsonObject) (key : String) (items : List String) : JsonObject :=
  (key, .ofArray (items.map .ofString)) :: response

def common {n : ℕ} (motionDetectors : CurrentSensorSettings n) : JsonObject :=
  [("sensitivityMode", .ofString (toString motionDetectors.m_sensitivityMode)),
    ("angle", .ofString (toString motionDetectors.m_sensorAngle)),
    ("distance", .ofString (toString motionDetectors.m_sensorDistance)),
    ("type", .ofString motionDetectors.m_sensorType),
    ("description", .ofString motionDetectors.m_sensorDescription)]

def sensorData (c : Constants) (motionDetectors : CurrentSensorSettings c.identifiers) :
    JsonObject :=
  if motionDetectors.m_sensitivityMode = c.modeLevels then
    setResponseArray (common motionDetectors) "sensitivities"
      (List.ofFn motionDetectors.m_sensitivity)
  else if motionDetectors.m_sensitivityMode = c.modeInt then
    ("step", .ofString (motionDetectors.m_sensitivity c.identifier1)) ::
      ("max", .ofString (motionDetectors.m_sensitivity c.identifier1)) ::
      ("min", .ofString (motionDetectors.m_sensitivity c.identifier1)) :: common motionDetectors
  else common motionDetectors

/-- `rc` and `motionDetectors` are what the driver returns. -/
def getMotionDetectors (c : Constants) (rc : MotionDetectionResult)
    (motionDetectors : CurrentSensorSettings c.identifiers) (response : JsonObject) :
    CoreError × JsonObject :=
  if rc ≠ .success then
    returnResponse false (("supportedMotionDetectors", .ofString "0") :: response)
  else
    returnResponse true
      (("supportedMotionDetectorsInfo",
          .ofObject [(motionDetectors.m_sensorIndex, .ofObject (sensorData c motionDetectors))]) ::
        ("supportedMotionDetectors", .ofArray [.ofString motionDetectors.m_sensorIndex]) ::
        response)

def reported {n : ℕ} (s : CurrentSensorSettings n) : List String :=
  [s.m_sensorIndex, s.m_sensorDescription, s.m_sensorType, toString s.m_sensorDistance,
    toString s.m_sensorAngle]

variable {c : Constants} {s t : CurrentSensorSettings c.identifiers} {response : JsonObject}

theorem ofString_inj {a b : String} : Variant.ofString a = Variant.ofString b ↔ a = b := by
  simp [Variant.ofString]

theorem ofObject_inj {a b : JsonObject} : Variant.ofObject a = Variant.ofObject b ↔ a = b := by
  simp [Variant.ofObject]

theorem ofStrings_inj {a b : List String} :
    Variant.ofArray (a.map .ofString) = Variant.ofArray (b.map .ofString) ↔ a = b := by
  have hmap : a.map Variant.ofString = b.map Variant.ofString ↔ a = b :=
    List.map_inj_right fun _ _ h ↦ ofString_inj.mp h
  simp [Variant.ofArray, hmap]

theorem common_eq_iff (hmode : s.m_sensitivityMode = t.m_sensitivityMode) :
    common s = common t ↔ (s.m_sensorDescription = t.m_sensorDescription ∧
      s.m_sensorType = t.m_sensorType ∧ toString s.m_sensorDistance = toString t.m_sensorDistance ∧
      toString s.m_sensorAngle = toString t.m_sensorAngle) := by
  simp only [common, hmode, List.cons.injEq, Prod.mk.injEq, true_and, ofString_inj, and_true]
  tauto

theorem getMotionDetectors_eq_iff :
    getMotionDetectors c .success s response = getMotionDetectors c .success t response ↔
      s.m_sensorIndex = t.m_sensorIndex ∧ sensorData c s = sensorData c t := by
  have harray : Variant.ofArray [.ofString s.m_sensorIndex] =
      .ofArray [.ofString t.m_sensorIndex] ↔ s.m_sensorIndex = t.m_sensorIndex := by
    simp [Variant.ofArray, ofString_inj]
  simp only [getMotionDetectors, returnResponse, ne_eq, not_true_eq_false, if_false,
    Prod.mk.injEq, List.cons.injEq, true_and, and_true, harray, ofObject_inj]
  tauto

/-- In the mode with levels all sensitivities are in the data. -/
theorem sensorData_levels (hmode : s.m_sensitivityMode = t.m_sensitivityMode)
    (hlevels : s.m_sensitivityMode = c.modeLevels) :
    sensorData c s = sensorData c t ↔ common s = common t ∧ s.m_sensitivity = t.m_sensitivity := by
  rw [sensorData, if_pos hlevels, sensorData, if_pos (hmode ▸ hlevels)]
  simp only [setResponseArray, List.cons.injEq, Prod.mk.injEq, true_and, ofStrings_inj,
    List.ofFn_injective.eq_iff]
  tauto

/-- In the integer mode only the first one is. -/
theorem sensorData_int (hmode : s.m_sensitivityMode = t.m_sensitivityMode)
    (hint : s.m_sensitivityMode = c.modeInt) :
    sensorData c s = sensorData c t ↔ common s = common t ∧
      s.m_sensitivity c.identifier1 = t.m_sensitivity c.identifier1 := by
  have hnot : s.m_sensitivityMode ≠ c.modeLevels := hint ▸ c.modes_ne
  rw [sensorData, if_neg hnot, if_pos hint, sensorData, if_neg (hmode ▸ hnot),
    if_pos (hmode ▸ hint)]
  simp only [List.cons.injEq, Prod.mk.injEq, true_and, ofString_inj]
  tauto

theorem reported_eq_iff (hmode : s.m_sensitivityMode = t.m_sensitivityMode) :
    reported s = reported t ↔ s.m_sensorIndex = t.m_sensorIndex ∧ common s = common t := by
  rw [common_eq_iff hmode]
  simp [reported]

/-- Settings of one mode that differ in a sensitivity give different responses if and only
if the mode is the one with levels, or they differ in the first sensitivity or in another
field that is reported. -/
theorem responses_differ_iff (hmode : s.m_sensitivityMode = t.m_sensitivityMode)
    (hreports : s.m_sensitivityMode = c.modeLevels ∨ s.m_sensitivityMode = c.modeInt)
    (hdiffer : s.m_sensitivity ≠ t.m_sensitivity) (response : JsonObject) :
    getMotionDetectors c .success s response ≠ getMotionDetectors c .success t response ↔
      s.m_sensitivityMode = c.modeLevels ∨
        s.m_sensitivity c.identifier1 ≠ t.m_sensitivity c.identifier1 ∨
        reported s ≠ reported t := by
  rw [ne_eq, getMotionDetectors_eq_iff, ne_eq (reported s), reported_eq_iff hmode]
  rcases hreports with hlevels | hint
  · rw [sensorData_levels hmode hlevels]
    tauto
  · have hnot : s.m_sensitivityMode ≠ c.modeLevels := hint ▸ c.modes_ne
    rw [sensorData_int hmode hint]
    tauto

def threeIdentifiers : Constants := ⟨3, 0, 2, 1, by decide⟩

def sensor (mode : Int) (maximum : String) : CurrentSensorSettings 3 where
  m_sensorIndex := "FP_MD"
  m_sensorDescription := "The only motion detector"
  m_sensorType := "PID"
  m_sensorDistance := 6000
  m_sensorAngle := 74
  m_sensitivityMode := mode
  m_sensitivity := ["0", maximum, "1"].get

theorem maximum_differs (mode : Int) :
    (sensor mode "10").m_sensitivity ≠ (sensor mode "20").m_sensitivity := by
  intro h
  exact absurd (congrFun h 1) (by simp [sensor])

theorem responses_differ_iff_levels :
    getMotionDetectors threeIdentifiers .success (sensor 2 "10") [] ≠
        getMotionDetectors threeIdentifiers .success (sensor 2 "20") [] ↔
      (sensor 2 "10").m_sensitivityMode = 2 ∨
        (sensor 2 "10").m_sensitivity 0 ≠ (sensor 2 "20").m_sensitivity 0 ∨
        reported (sensor 2 "10") ≠ reported (sensor 2 "20") :=
  responses_differ_iff (c := threeIdentifiers) (s := sensor 2 "10") (t := sensor 2 "20") rfl
    (.inl rfl) (maximum_differs 2) []

/-- The maximum is not in the response. -/
theorem maximum_lost : ¬ ∀ (c : Constants) (s t : CurrentSensorSettings c.identifiers)
    (response : JsonObject), s.m_sensitivityMode = t.m_sensitivityMode →
    s.m_sensitivityMode = c.modeLevels ∨ s.m_sensitivityMode = c.modeInt →
    s.m_sensitivity ≠ t.m_sensitivity →
    getMotionDetectors c .success s response ≠ getMotionDetectors c .success t response := by
  intro h
  exact h threeIdentifiers (sensor 1 "10") (sensor 1 "20") [] rfl (.inr rfl) (maximum_differs 1) rfl

end Peripherals.MotionDetection.Detectors
