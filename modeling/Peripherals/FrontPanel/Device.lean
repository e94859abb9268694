import Peripherals.Thunder

namespace Peripherals.FrontPanel

open Thunder

inductive Color
  | value (color : UInt32)
  | named (name : String)

/-- The calls of the device settings library on a device in `D`. Each may throw
(`none`), and it may change the device also then. -/
structure Device (D : Type) where
  getIndicators : D → Option (List String) × D
  getInstance : String → D → Option Unit × D
  getColor : String → D → Option Unit × D
  setState : String → Bool → D → Option Unit × D
  setColor : String → Color → Bool → D → Option Unit × D
  getBrightness : String → Bool → D → Option Int × D
  setBrightness : String → Int → Bool → D → Option Unit × D

/-- The file-level variables that have to do with the indicators. -/
structure Panel (D : Type) where
  device : D
  initDone : Bool
  globalLedBrightness : Int
  isMessageLedOn : Bool
  isRecordLedOn : Bool
  powerStatus : Bool
  m_lights : List String
  fpIndicators : List String

def Panel.init {D : Type} (device : D) : Panel D :=
  ⟨device, false, 100, false, false, false, [], []⟩

/-- What runs in a `try` block: `none` where an exception ends it. -/
abbrev Try (D : Type) := OptionT (StateM (Panel D))

variable {D : Type}

def call {α : Type} (f : D → Option α × D) : Try D α := OptionT.mk fun p ↦
  ((f p.device).1, { p with device := (f p.device).2 })

def onIndicator {α : Type} (dev : Device D) (name : String) (f : D → Option α × D) : Try D α := do
  call (dev.getInstance name)
  call f

def svc2iarm (name : String) : String :=
  if name = "record_led" then "Record"
  else if name = "data_led" then "Message"
  else if name = "power_led" then "Power"
  else name

inductive FrontPanelIndicator
  | clock | message | power | record | remote | rfbypass | all
  deriving DecidableEq

def addLights (m_lights names : List String) : List String :=
  names.foldl (fun lights name ↦ if name ∈ lights then lights else lights ++ [name]) m_lights

inductive Profile
  | notFound | stb | tv
  deriving DecidableEq

/-- The `try` block of `CFrontPanel::instance`. The power manager and the
profile are as they are found then. -/
def initIndicators (dev : Device D) (poweredOn : Bool) (profileType : Profile) : Try D Unit := do
  let fpIndicators ← call dev.getIndicators
  modify fun p ↦ { p with
    fpIndicators := fpIndicators
    m_lights := addLights p.m_lights fpIndicators
    powerStatus := p.powerStatus || poweredOn }
  let brightness ← onIndicator dev "Power" (dev.getBrightness "Power" false)
  modify fun p ↦ { p with globalLedBrightness := brightness }
  let powerStatus := (← get).powerStatus
  if profileType ≠ .tv then
    for name in fpIndicators do
      if powerStatus then
        onIndicator dev name (dev.setBrightness name brightness false)
      onIndicator dev name (dev.setState name false)
  if powerStatus then
    onIndicator dev "Power" (dev.setState "Power" true)

/-- The `try` block of `CFrontPanel::start`. -/
def startIndicators (dev : Device D) : Try D Unit := do
  if (← get).powerStatus then
    onIndicator dev "Power" (dev.setState "Power" true)
  let names ← call dev.getIndicators
  modify fun p ↦ { p with m_lights := addLights p.m_lights names }

/-- The `try` block of `CFrontPanel::setBrightness`. -/
def setIndicatorsBrightness (dev : Device D) (brightness : Int) : Try D Unit := do
  for name in (← get).fpIndicators do
    onIndicator dev name (dev.setBrightness name brightness true)

/-- The `try` block of `CFrontPanel::getBrightness`. -/
def readBrightness (dev : Device D) : Try D Unit := do
  let brightness ← onIndicator dev "Power" (dev.getBrightness "Power" false)
  modify fun p ↦ { p with globalLedBrightness := brightness }

/-- The `try` block of `CFrontPanel::powerOnLed`. -/
def powerOnIndicator (dev : Device D) (fp_indicator : FrontPanelIndicator) : Try D Unit := do
  if (← get).powerStatus then
    match fp_indicator with
    | .message =>
      modify fun p ↦ { p with isMessageLedOn := true }
      onIndicator dev "Message" (dev.setState "Message" true)
    | .record =>
      modify fun p ↦ { p with isRecordLedOn := true }
      onIndicator dev "Record" (dev.setState "Record" true)
    | .remote => onIndicator dev "Remote" (dev.setState "Remote" true)
    | .rfbypass => onIndicator dev "RfByPass" (dev.setState "RfByPass" true)
    | .all =>
      if (← get).isMessageLedOn then
        onIndicator dev "Message" (dev.setState "Message" true)
      if (← get).isRecordLedOn then
        onIndicator dev "Record" (dev.setState "Record" true)
      onIndicator dev "Power" (dev.setState "Power" true)
    | .power => onIndicator dev "Power" (dev.setState "Power" true)
    | .clock => pure ()

/-- The `try` block of `CFrontPanel::powerOffLed`. -/
def powerOffIndicator (dev : Device D) (fp_indicator : FrontPanelIndicator) : Try D Unit := do
  match fp_indicator with
  | .message =>
    modify fun p ↦ { p with isMessageLedOn := false }
    onIndicator dev "Message" (dev.setState "Message" false)
  | .record =>
    modify fun p ↦ { p with isRecordLedOn := false }
    onIndicator dev "Record" (dev.setState "Record" false)
  | .remote => onIndicator dev "Remote" (dev.setState "Remote" false)
  | .rfbypass => onIndicator dev "RfByPass" (dev.setState "RfByPass" false)
  | .all =>
    for name in (← get).fpIndicators do
      onIndicator dev name (dev.setState name false)
  | .power => onIndicator dev "Power" (dev.setState "Power" false)
  | .clock => pure ()

def rgb (parameters : JsonObject) : UInt32 :=
  (toUnsigned (getNumberParameterObject parameters "red") <<< 16) |||
    (toUnsigned (getNumberParameterObject parameters "green") <<< 8) |||
    toUnsigned (getNumberParameterObject parameters "blue")

def brightnessOf (parameters : JsonObject) : Int :=
  if parameters.hasLabel "brightness" then toInt (getNumberParameterObject parameters "brightness")
  else -1

/-- The second `try` block of `CFrontPanel::setLED` and of `CFrontPanel::setBlinkLed`. -/
def applyBrightness (dev : Device D) (ledIndicator : String) (brightness : Int) : Try D Unit := do
  let mut brightness := brightness
  if brightness = -1 then
    brightness ← onIndicator dev ledIndicator (dev.getBrightness ledIndicator true)
  onIndicator dev ledIndicator (dev.setBrightness ledIndicator brightness false)

/-- The result of `CFrontPanel::setLED` after its `stopBlinkTimer`. -/
def setIndicator (dev : Device D) (parameters : JsonObject) (p : Panel D) : Bool × Panel D :=
  let ledIndicator := svc2iarm (parameters.get "ledIndicator").string
  let (_, p) :=
    if parameters.hasLabel "color" ∧ (parameters.get "color").string ≠ "" then
      (do call (dev.getInstance ledIndicator)
          call (dev.getColor (parameters.get "color").string)
          call (dev.setColor ledIndicator (.named (parameters.get "color").string) false) :
        Try D Unit).run p
    else if parameters.hasLabel "red" then
      (onIndicator dev ledIndicator
        (dev.setColor ledIndicator (.value (rgb parameters)) true)).run p
    else (none, p)
  let (result, p) := (applyBrightness dev ledIndicator (brightnessOf parameters)).run p
  (result.isSome, p)

structure FrontPanelBlinkInfo where
  ledIndicator : String
  colorName : String
  colorValue : UInt32
  brightness : Int
  durationInMs : Int
  colorMode : Int

/-- One element of the pattern in `CFrontPanel::setBlink`. -/
def blinkFrame (ledIndicator : String) (frontPanelBlinkHash : JsonObject) : FrontPanelBlinkInfo :=
  let frame (colorName : String) (colorValue : UInt32) (colorMode : Int) : FrontPanelBlinkInfo :=
    { ledIndicator, colorName, colorValue, colorMode
      brightness := brightnessOf frontPanelBlinkHash
      durationInMs := toInt (getNumberParameterObject frontPanelBlinkHash "duration") }
  if frontPanelBlinkHash.hasLabel "color" then frame (frontPanelBlinkHash.get "color").string 0 2
  else if frontPanelBlinkHash.hasLabel "red" then frame "" (rgb frontPanelBlinkHash) 1
  else frame "" 0 0

/-- The device calls of `CFrontPanel::setBlinkLed`. -/
def showFrame (dev : Device D) (blinkInfo : FrontPanelBlinkInfo) (p : Panel D) : Panel D :=
  let ledIndicator := blinkInfo.ledIndicator
  let (_, p) :=
    if blinkInfo.colorMode = 1 then
      (onIndicator dev ledIndicator
        (dev.setColor ledIndicator (.value blinkInfo.colorValue) false)).run p
    else if blinkInfo.colorMode = 2 then
      (do call (dev.getInstance ledIndicator)
          call (dev.getColor blinkInfo.colorName)
          call (dev.setColor ledIndicator (.named blinkInfo.colorName) false) : Try D Unit).run p
    else (none, p)
  ((applyBrightness dev ledIndicator blinkInfo.brightness).run p).2

end Peripherals.FrontPanel
