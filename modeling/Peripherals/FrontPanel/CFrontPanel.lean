import Peripherals.FrontPanel.Device

namespace Peripherals.FrontPanel

open Thunder

variable {D : Type}

abbrev InstanceId := ℕ

structure Job where
  m_frontPanel : InstanceId
  delay : Int

/-- The variables of blinking: those of the file, `s_instance` with the members
of the object it points to, and the queue of `blinkTimer`. The last three record
the frames given to `setBlinkLed`, that `m_blinkList.at` threw, and that a job
fired for an object that is gone. -/
structure Blink where
  started : Bool
  m_numberOfBlinks : Int
  m_maxNumberOfBlinkRepeats : Int
  m_currentBlinkListIndex : Int
  s_instance : Option InstanceId
  m_isBlinking : Bool
  m_blinkList : List FrontPanelBlinkInfo
  blinkTimer : List Job
  applied : List FrontPanelBlinkInfo
  outOfRange : Bool
  dangling : Bool

def Blink.init : Blink := ⟨false, 0, 0, 0, none, false, [], [], [], false, false⟩

structure State (D : Type) where
  panel : Panel D
  blink : Blink

def State.init (device : D) : State D := ⟨.init device, .init⟩

def clearBlinking (b : Blink) : Blink := { b with m_isBlinking := false }

def revoke (this : InstanceId) (b : Blink) : Blink :=
  { b with blinkTimer := b.blinkTimer.filter (·.m_frontPanel ≠ this) }

def stopBlinkTimer (this : InstanceId) (b : Blink) : Blink := revoke this (clearBlinking b)

def schedule (this : InstanceId) (blinkInfo : FrontPanelBlinkInfo) (b : Blink) : Blink :=
  { b with blinkTimer := b.blinkTimer ++ [⟨this, blinkInfo.durationInMs⟩] }

def setBlinkLed (dev : Device D) (blinkInfo : FrontPanelBlinkInfo) (s : State D) : State D :=
  { panel := showFrame dev blinkInfo s.panel
    blink := { s.blink with applied := s.blink.applied ++ [blinkInfo] } }

/-- `(size_t)index >= size`: a negative `int` becomes larger than any vector. -/
def pastEnd (index : Int) (size : ℕ) : Bool := index < 0 || size ≤ index.toNat

/-- `m_blinkList.at(index)`, where `none` stands for `std::out_of_range`. -/
def at? (m_blinkList : List FrontPanelBlinkInfo) (index : Int) : Option FrontPanelBlinkInfo :=
  if index < 0 then none else m_blinkList[index.toNat]?

/-- The step of `onBlinkTimer` to the next frame, with its `blinkAgain`. -/
def advance (b : Blink) : Bool × Blink :=
  let index := toInt (b.m_currentBlinkListIndex + 1)
  if pastEnd index b.m_blinkList.length then
    let numberOfBlinks := toInt (b.m_numberOfBlinks + 1)
    (decide (b.m_maxNumberOfBlinkRepeats < 0 ∨ numberOfBlinks ≤ b.m_maxNumberOfBlinkRepeats),
      { b with m_currentBlinkListIndex := 0, m_numberOfBlinks := numberOfBlinks })
  else (true, { b with m_currentBlinkListIndex := index })

def applyCurrent (dev : Device D) (s : State D) : Option FrontPanelBlinkInfo × State D :=
  match at? s.blink.m_blinkList s.blink.m_currentBlinkListIndex with
  | some blinkInfo => (some blinkInfo, setBlinkLed dev blinkInfo s)
  | none => (none, { s with blink := { s.blink with outOfRange := true } })

def scheduleIfBlinking (this : InstanceId) (blinkInfo : FrontPanelBlinkInfo) (b : Blink) : Blink :=
  if b.m_isBlinking then schedule this blinkInfo b else b

def playCurrent (dev : Device D) (this : InstanceId) (s : State D) : State D :=
  match applyCurrent dev s with
  | (some blinkInfo, s) => { s with blink := scheduleIfBlinking this blinkInfo s.blink }
  | (none, s) => s

def onBlinkTimer (dev : Device D) (this : InstanceId) (s : State D) : State D :=
  match advance s.blink with
  | (true, b) => playCurrent dev this { s with blink := b }
  | (false, b) => { s with blink := b }

/-- `startBlinkTimer` up to its first frame. -/
def rewind (this : InstanceId) (numberOfBlinkRepeats : Int) (b : Blink) : Blink :=
  { stopBlinkTimer this b with
    m_numberOfBlinks := 0
    m_isBlinking := true
    m_maxNumberOfBlinkRepeats := numberOfBlinkRepeats
    m_currentBlinkListIndex := 0 }

def startBlinkTimer (dev : Device D) (this : InstanceId) (numberOfBlinkRepeats : Int)
    (s : State D) : State D :=
  let s := { s with blink := rewind this numberOfBlinkRepeats s.blink }
  if 0 < s.blink.m_blinkList.length then playCurrent dev this s else s

def setBlink (dev : Device D) (this : InstanceId) (blinkInfo : JsonObject) (s : State D) :
    State D :=
  let ledIndicator := svc2iarm (blinkInfo.get "ledIndicator").string
  let iterations := toInt (getNumberParameterObject blinkInfo "iterations")
  let patternList := (blinkInfo.get "pattern").array
  let b := { stopBlinkTimer this s.blink with
    m_blinkList := patternList.map fun pattern ↦ blinkFrame ledIndicator pattern.object }
  startBlinkTimer dev this iterations { s with blink := b }

/-- The `new CFrontPanel` of `CFrontPanel::instance`, at the address that it gets. -/
def construct (this : InstanceId) (b : Blink) : Blink :=
  match b.s_instance with
  | some _ => b
  | none => { b with s_instance := some this, m_isBlinking := false, m_blinkList := [] }

def instance_ (dev : Device D) (this : InstanceId) (poweredOn : Bool) (profileType : Profile)
    (s : State D) : State D :=
  if s.panel.initDone then s
  else
    { panel := { ((initIndicators dev poweredOn profileType).run s.panel).2 with initDone := true }
      blink := construct this s.blink }

def deinitialize (this : InstanceId) (s : State D) : State D :=
  { panel := { s.panel with initDone := false }
    blink := { stopBlinkTimer this s.blink with s_instance := none } }

def start (dev : Device D) (s : State D) : Bool × State D :=
  let panel := ((startIndicators dev).run s.panel).2
  (true, { panel
           blink := if s.blink.started then s.blink
             else { s.blink with
               m_numberOfBlinks := 0
               m_maxNumberOfBlinkRepeats := 0
               m_currentBlinkListIndex := 0
               started := true } })

def stop (this : InstanceId) (s : State D) : Bool × State D :=
  (true, { s with blink := stopBlinkTimer this s.blink })

def setPowerStatus (bPowerStatus : Bool) (s : State D) : State D :=
  { s with panel := { s.panel with powerStatus := bPowerStatus } }

def powerOnLed (dev : Device D) (this : InstanceId) (fp_indicator : FrontPanelIndicator)
    (s : State D) : Bool × State D :=
  let (result, panel) := (powerOnIndicator dev fp_indicator).run s.panel
  (result.isSome, { panel, blink := stopBlinkTimer this s.blink })

def powerOffLed (dev : Device D) (this : InstanceId) (fp_indicator : FrontPanelIndicator)
    (s : State D) : Bool × State D :=
  let (result, panel) := (powerOffIndicator dev fp_indicator).run s.panel
  (result.isSome, { panel, blink := stopBlinkTimer this s.blink })

def powerOnAllLed (dev : Device D) (this : InstanceId) (s : State D) : Bool × State D :=
  (true, (powerOnLed dev this .all s).2)

def powerOffAllLed (dev : Device D) (this : InstanceId) (s : State D) : Bool × State D :=
  (true, (powerOffLed dev this .all s).2)

def setBrightness (dev : Device D) (this : InstanceId) (fp_brightness : Int) (s : State D) :
    Bool × State D :=
  let panel := { s.panel with globalLedBrightness := fp_brightness }
  let panel := ((setIndicatorsBrightness dev fp_brightness).run panel).2
  (true, (powerOnLed dev this .all { panel, blink := stopBlinkTimer this s.blink }).2)

def getBrightness (dev : Device D) (s : State D) : Int × State D :=
  let panel := ((readBrightness dev).run s.panel).2
  (panel.globalLedBrightness, { s with panel })

def setLED (dev : Device D) (this : InstanceId) (parameters : JsonObject) (s : State D) :
    Bool × State D :=
  let (success, panel) := setIndicator dev parameters s.panel
  (success, { panel, blink := stopBlinkTimer this s.blink })

inductive Action
  | instance_ (this : InstanceId) (poweredOn : Bool) (profileType : Profile)
  | deinit
  | start
  | stop
  | setPowerStatus (bPowerStatus : Bool)
  | powerOnLed (fp_indicator : FrontPanelIndicator)
  | powerOffLed (fp_indicator : FrontPanelIndicator)
  | powerOnAllLed
  | powerOffAllLed
  | setBrightness (fp_brightness : Int)
  | getBrightness
  | setLED (parameters : JsonObject)
  | setBlink (blinkInfo : JsonObject)
  | fire (k : ℕ)

def method (dev : Device D) (this : InstanceId) (s : State D) : Action → Option (State D)
  | .instance_ .. | .fire _ => none
  | .deinit => some <| deinitialize this s
  | .start => some (start dev s).2
  | .stop => some (stop this s).2
  | .setPowerStatus bPowerStatus => some (setPowerStatus bPowerStatus s)
  | .powerOnLed fp_indicator => some (powerOnLed dev this fp_indicator s).2
  | .powerOffLed fp_indicator => some (powerOffLed dev this fp_indicator s).2
  | .powerOnAllLed => some (powerOnAllLed dev this s).2
  | .powerOffAllLed => some (powerOffAllLed dev this s).2
  | .setBrightness fp_brightness => some (setBrightness dev this fp_brightness s).2
  | .getBrightness => some (getBrightness dev s).2
  | .setLED parameters => some (setLED dev this parameters s).2
  | .setBlink blinkInfo => some (setBlink dev this blinkInfo s)

/-- `BlinkInfo::Timed` for an object that may be gone. -/
def timed (dev : Device D) (fp : InstanceId) (s : State D) : State D :=
  if s.blink.s_instance = some fp then onBlinkTimer dev fp s
  else { s with blink := { s.blink with dangling := true } }

def fire (dev : Device D) (k : ℕ) (s : State D) : Option (State D) :=
  match s.blink.blinkTimer[k]? with
  | some job => some (timed dev job.m_frontPanel
      { s with blink := { s.blink with blinkTimer := s.blink.blinkTimer.eraseIdx k } })
  | none => none

def step (dev : Device D) (s : State D) : Action → Option (State D)
  | .instance_ this poweredOn profileType => some (instance_ dev this poweredOn profileType s)
  | .fire k => fire dev k s
  | a =>
    match s.blink.s_instance with
    | some this => method dev this s a
    | none => none

end Peripherals.FrontPanel
