import Mathlib.Logic.Function.Basic
import Peripherals.FrontPanel.CFrontPanel

namespace Peripherals.FrontPanel

open Function

/-- The panel as it is seen from outside, with what it remembers of its lights. -/
structure Lights where
  powerStatus : Bool
  isMessageLedOn : Bool
  isRecordLedOn : Bool
  names : List String
  lit : String → Bool

namespace Lights

def set (l : Lights) (name : String) (bState : Bool) : Lights :=
  { l with lit := update l.lit name bState }

def darken (l : Lights) (names : List String) : Lights :=
  { l with lit := fun name ↦ if name ∈ names then false else l.lit name }

def powerOnAll (l : Lights) : Lights :=
  let l := if l.isMessageLedOn then l.set "Message" true else l
  let l := if l.isRecordLedOn then l.set "Record" true else l
  l.set "Power" true

def powerOn (l : Lights) (fp_indicator : FrontPanelIndicator) : Lights :=
  if l.powerStatus then
    match fp_indicator with
    | .message => { l with isMessageLedOn := true }.set "Message" true
    | .record => { l with isRecordLedOn := true }.set "Record" true
    | .remote => l.set "Remote" true
    | .rfbypass => l.set "RfByPass" true
    | .all => l.powerOnAll
    | .power => l.set "Power" true
    | .clock => l
  else l

def powerOff (l : Lights) : FrontPanelIndicator → Lights
  | .message => { l with isMessageLedOn := false }.set "Message" false
  | .record => { l with isRecordLedOn := false }.set "Record" false
  | .remote => l.set "Remote" false
  | .rfbypass => l.set "RfByPass" false
  | .all => l.darken l.names
  | .power => l.set "Power" false
  | .clock => l

def initial (l : Lights) (names : List String) (poweredOn : Bool) (profileType : Profile) :
    Lights :=
  let l := { l with names, powerStatus := l.powerStatus || poweredOn }
  let l := if profileType = .tv then l else l.darken names
  if l.powerStatus then l.set "Power" true else l

def step (l : Lights) : Action → Lights
  | .setPowerStatus bPowerStatus => { l with powerStatus := bPowerStatus }
  | .powerOnLed fp_indicator => l.powerOn fp_indicator
  | .powerOffLed fp_indicator => l.powerOff fp_indicator
  | .powerOnAllLed | .setBrightness _ => l.powerOn .all
  | .powerOffAllLed => l.powerOff .all
  | _ => l

/-- The indicators whose lights `powerOnAll` brings back. -/
def remembered (l : Lights) (name : String) : Bool :=
  (name == "Message" && l.isMessageLedOn) || (name == "Record" && l.isRecordLedOn)

end Lights

/-- What the calls up to now tell of an indicator: whether the power is on, and
whether the indicator was lit and is not remembered. -/
structure History where
  power : Bool
  stray : String → Bool

namespace History

def leave (h : History) (name : String) (b : Bool) : History :=
  { h with stray := update h.stray name b }

def start (l : Lights) (poweredOn : Bool) (profileType : Profile) : History :=
  ⟨l.powerStatus || poweredOn,
    fun name ↦ profileType = .tv && (l.lit name && !l.remembered name)⟩

def step (h : History) : Action → History
  | .setPowerStatus bPowerStatus => { h with power := bPowerStatus }
  | .powerOnLed .message => if h.power then h.leave "Message" false else h
  | .powerOnLed .record => if h.power then h.leave "Record" false else h
  | .powerOnLed .remote => if h.power then h.leave "Remote" true else h
  | .powerOnLed .rfbypass => if h.power then h.leave "RfByPass" true else h
  | .powerOffLed .message => h.leave "Message" false
  | .powerOffLed .record => h.leave "Record" false
  | .powerOffLed .remote => h.leave "Remote" false
  | .powerOffLed .rfbypass => h.leave "RfByPass" false
  | .powerOffLed .all | .powerOffAllLed => { h with stray := fun _ ↦ false }
  | _ => h

end History

def Action.Switches : Action → Prop
  | .setPowerStatus _ | .powerOnLed _ | .powerOffLed _ | .powerOnAllLed | .powerOffAllLed
  | .setBrightness _ => True
  | _ => False

variable {l l' : Lights} {h : History} {name : String} {bState b : Bool}

/-- Of the lights that a history tells of, those that are lit and not remembered
are the strays. -/
structure Tells (h : History) (l : Lights) : Prop where
  power : l.powerStatus = h.power
  stray : ∀ name ∈ l.names, name ≠ "Power" → (l.lit name && !l.remembered name) = h.stray name

/-- A call that changes one light, and what is remembered of it. -/
theorem Tells.leave (ht : Tells h l) (hpower : l'.powerStatus = l.powerStatus)
    (hnames : l'.names = l.names)
    (hother : ∀ other, other ≠ name →
      l'.lit other = l.lit other ∧ l'.remembered other = l.remembered other)
    (hname : (l'.lit name && !l'.remembered name) = b) : Tells (h.leave name b) l' := by
  refine ⟨hpower.trans ht.power, ?_⟩
  intro other ho hne
  by_cases he : other = name
  · rw [he, hname]
    simp [History.leave]
  · obtain ⟨hlit, hremembered⟩ := hother other he
    rw [hlit, hremembered, ht.stray other (hnames ▸ ho) hne]
    simp [History.leave, he]

theorem Tells.set (ht : Tells h l) (hname : name = "Power" ∨ l.remembered name = true) :
    Tells h (l.set name bState) := by
  refine ⟨ht.power, ?_⟩
  intro other ho hne
  by_cases he : other = name
  · have hremembered := hname.resolve_left (he ▸ hne)
    have hkept : (l.set name bState).remembered other = true := he ▸ hremembered
    rw [← ht.stray other ho hne, hkept, he, hremembered]
    simp
  · rw [← ht.stray other ho hne]
    simp [Lights.set, Lights.remembered, he]

theorem tells_start (l : Lights) (names : List String) (poweredOn : Bool)
    (profileType : Profile) :
    Tells (.start l poweredOn profileType) (l.initial names poweredOn profileType) := by
  have hrest : Tells (.start l poweredOn profileType)
      (if profileType = .tv then { l with names, powerStatus := l.powerStatus || poweredOn }
        else Lights.darken { l with names, powerStatus := l.powerStatus || poweredOn } names) := by
    split
    next htv => exact ⟨rfl, fun name _ _ ↦ by simp [History.start, htv, Lights.remembered]⟩
    next htv =>
      refine ⟨rfl, ?_⟩
      intro name hname _
      have hlisted : name ∈ names := hname
      simp [History.start, htv, Lights.darken, hlisted]
  have hpower {h : History} {l : Lights} (ht : Tells h l) :
      Tells h (if l.powerStatus then l.set "Power" true else l) := by
    split
    · exact ht.set (.inl rfl)
    · exact ht
  exact hpower hrest

theorem Tells.powerOnAll (ht : Tells h l) : Tells h l.powerOnAll := by
  have hrecord {l : Lights} (ht : Tells h l) :
      Tells h ((if l.isRecordLedOn then l.set "Record" true else l).set "Power" true) := by
    split
    next hon => exact (ht.set (.inr (by simp [Lights.remembered, hon]))).set (.inl rfl)
    next => exact ht.set (.inl rfl)
  unfold Lights.powerOnAll
  dsimp only
  split
  next hon => exact hrecord (ht.set (.inr (by simp [Lights.remembered, hon])))
  next => exact hrecord ht

theorem Tells.powerOn (ht : Tells h l) (fp_indicator : FrontPanelIndicator) :
    Tells (h.step (.powerOnLed fp_indicator)) (l.powerOn fp_indicator) := by
  unfold Lights.powerOn
  split
  next hon =>
    have hpower : h.power = true := ht.power.symm.trans hon
    cases fp_indicator with
    | message | record | remote | rfbypass =>
      simp only [History.step, hpower, if_true]
      refine ht.leave (by rfl) (by rfl) ?_ ?_
      · intro other ho
        simp [Lights.set, Lights.remembered, beq_eq_false_iff_ne.mpr ho, ho]
      · simp [Lights.set, Lights.remembered]
    | all => exact ht.powerOnAll
    | power => exact ht.set (.inl rfl)
    | clock => exact ht
  next hoff =>
    have hpower : h.power = false := ht.power.symm.trans (Bool.eq_false_iff.mpr hoff)
    have hstep : h.step (.powerOnLed fp_indicator) = h := by
      cases fp_indicator <;> simp [History.step, hpower]
    rw [hstep]
    exact ht

theorem Tells.powerOff (ht : Tells h l) (fp_indicator : FrontPanelIndicator) :
    Tells (h.step (.powerOffLed fp_indicator)) (l.powerOff fp_indicator) := by
  cases fp_indicator with
  | power => exact ht.set (.inl rfl)
  | clock => exact ht
  | all =>
    refine ⟨ht.power, ?_⟩
    intro name hname _
    have hlisted : name ∈ l.names := hname
    simp [Lights.powerOff, Lights.darken, History.step, hlisted]
  | message | record | remote | rfbypass =>
    refine ht.leave (by rfl) (by rfl) ?_ ?_
    · intro other ho
      simp [Lights.powerOff, Lights.set, Lights.remembered, beq_eq_false_iff_ne.mpr ho, ho]
    · simp [Lights.powerOff, Lights.set]

theorem Tells.step (ht : Tells h l) (a : Action) : Tells (h.step a) (l.step a) := by
  cases a with
  | setPowerStatus bPowerStatus => exact ⟨rfl, ht.stray⟩
  | powerOnLed fp_indicator => exact ht.powerOn fp_indicator
  | powerOffLed fp_indicator => exact ht.powerOff fp_indicator
  | powerOnAllLed | setBrightness => exact ht.powerOn .all
  | powerOffAllLed => exact ht.powerOff .all
  | instance_ | deinit | start | stop | getBrightness | setLED | setBlink | fire => exact ht

theorem Lights.powerOnAll_lit (l : Lights) (name : String) :
    l.powerOnAll.lit name = (l.lit name || name == "Power" || l.remembered name) := by
  cases hmessage : l.isMessageLedOn <;> cases hrecord : l.isRecordLedOn <;>
    simp [Lights.powerOnAll, Lights.remembered, Lights.set, hmessage, hrecord, update_apply] <;>
    grind

theorem Lights.survives_iff (hpower : l.powerStatus = true) :
    (∀ name, l.lit name = true → ((l.powerOff .all).powerOn .all).lit name = true) ↔
      ∀ name ∈ l.names, name ≠ "Power" → (l.lit name && !l.remembered name) = false := by
  have hcycle (name : String) : ((l.powerOff .all).powerOn .all).lit name =
      ((if name ∈ l.names then false else l.lit name) || name == "Power" ||
        l.remembered name) := by
    have hon : (l.powerOff .all).powerOn .all = (l.powerOff .all).powerOnAll := by
      simp [Lights.powerOn, Lights.powerOff, Lights.darken, hpower]
    rw [hon, Lights.powerOnAll_lit]
    rfl
  refine ⟨?_, ?_⟩
  · intro hall name hname hne
    cases hlit : l.lit name with
    | false => rfl
    | true => simpa [hcycle, hname, hne] using hall name hlit
  · intro hall name hlit
    rw [hcycle]
    by_cases hname : name ∈ l.names
    · by_cases hne : name = "Power"
      · simp [hne]
      · have hremembered := hall name hname hne
        simpa [hlit, hname, hne] using hremembered
    · simp [hname, hlit]

end Peripherals.FrontPanel
