import Peripherals.FrontPanel.LightRequests

namespace Peripherals.FrontPanel

open Thunder Attempt Execution

variable {D : Type} {faults : ℕ → Bool}

/-- What the device calls do, and answer where they do not throw. -/
structure Responses (D : Type) where
  getIndicators : D → List String × D
  getInstance : String → D → D
  getColor : String → D → D
  setState : String → Bool → D → D
  setColor : String → Color → Bool → D → D
  getBrightness : String → Bool → D → Int × D
  setBrightness : String → Int → Bool → D → D

/-- A call with its number, which throws if `faults` says so. -/
def attempt {α : Type} (faults : ℕ → Bool) (f : D → α × D) (d : D × ℕ) : Option α × D × ℕ :=
  (if faults d.2 then none else some (f d.1).1, (f d.1).2, d.2 + 1)

/-- The device on which the call with the number `i` throws if `faults i`. -/
def Responses.withFaults (responses : Responses D) (faults : ℕ → Bool) : Device (D × ℕ) where
  getIndicators := attempt faults responses.getIndicators
  getInstance name := attempt faults fun d ↦ ((), responses.getInstance name d)
  getColor name := attempt faults fun d ↦ ((), responses.getColor name d)
  setState name bState := attempt faults fun d ↦ ((), responses.setState name bState d)
  setColor name color persist := attempt faults fun d ↦
    ((), responses.setColor name color persist d)
  getBrightness name persist := attempt faults (responses.getBrightness name persist)
  setBrightness name brightness persist := attempt faults fun d ↦
    ((), responses.setBrightness name brightness persist d)

def calls (p : Panel (D × ℕ)) : ℕ := p.device.2

theorem makes_call {α : Type} (f : D → α × D) : Makes calls faults (call (attempt faults f)) 1 := by
  intro p
  rw [wp_call_iff]
  simp only [attempt]
  split
  next h =>
    split at h
    · cases h
    next hfault =>
      refine ⟨?_, rfl⟩
      intro i hi
      obtain rfl := Nat.lt_one_iff.mp hi
      exact Bool.eq_false_iff.mpr hfault
  next h =>
    split at h
    next hfault => exact ⟨0, Nat.one_pos, ⟨fun i hi ↦ (Nat.not_lt_zero i hi).elim, hfault⟩, rfl⟩
    · cases h

def colorCalls : Option Color → ℕ
  | some (.named _) => 3
  | some (.value _) => 2
  | none => 0

def brightnessCalls (brightness : Int) : ℕ := if brightness = -1 then 4 else 2

theorem makes_onIndicator {α : Type} (responses : Responses D) (faults : ℕ → Bool)
    (name : String) (f : D → α × D) :
    Makes calls faults (onIndicator (responses.withFaults faults) name (attempt faults f)) 2 :=
  (makes_call _).bind fun _ ↦ makes_call f

theorem makes_applyColor (responses : Responses D) (faults : ℕ → Bool) (ledIndicator : String)
    (persist : Bool) (color : Option Color) :
    Makes calls faults (applyColor (responses.withFaults faults) ledIndicator persist color)
      (colorCalls color) := by
  cases color with
  | none => exact makes_pure ()
  | some color =>
    cases color with
    | value v => exact makes_onIndicator responses faults ledIndicator _
    | named colorName => exact (makes_call _).bind fun _ ↦ (makes_call _).bind fun _ ↦ makes_call _

theorem makes_applyBrightness (responses : Responses D) (faults : ℕ → Bool)
    (ledIndicator : String) (brightness : Int) :
    Makes calls faults (applyBrightness (responses.withFaults faults) ledIndicator brightness)
      (brightnessCalls brightness) := by
  have hset (b : Int) : Makes calls faults (onIndicator (responses.withFaults faults) ledIndicator
      ((responses.withFaults faults).setBrightness ledIndicator b false)) 2 :=
    makes_onIndicator responses faults ledIndicator _
  unfold brightnessCalls
  by_cases hread : brightness = -1
  · simp only [applyBrightness, hread, if_true]
    exact (makes_onIndicator responses faults ledIndicator _).bind hset
  · simp only [applyBrightness, hread, if_false]
    exact hset brightness

/-- The result of `setLED` is whether all its device calls went well, unless of
the calls for the colour one throws and of those for the brightness none. -/
theorem setLED_truthful_iff (responses : Responses D) (faults : ℕ → Bool) (this : InstanceId)
    (parameters : JsonObject) (s : State (D × ℕ)) :
    ((setLED (responses.withFaults faults) this parameters s).1 = true ↔
      ∀ i, calls s.panel ≤ i →
        i < calls (setLED (responses.withFaults faults) this parameters s).2.panel →
          faults i = false) ↔
      ∀ j < colorCalls (ledColor parameters), FirstFault faults (calls s.panel) j →
        ∃ i < brightnessCalls (brightnessOf parameters),
          faults (calls s.panel + j + 1 + i) = true := by
  have hresult : (setLED (responses.withFaults faults) this parameters s).1 =
      (setIndicator (responses.withFaults faults) parameters s.panel).1 := rfl
  have hpanel : (setLED (responses.withFaults faults) this parameters s).2.panel =
      (setIndicator (responses.withFaults faults) parameters s.panel).2 := rfl
  rw [hresult, hpanel, setIndicator_eq]
  apply Makes.second_truthful_iff
  · exact makes_applyColor responses faults _ true (ledColor parameters)
  · exact makes_applyBrightness responses faults _ (brightnessOf parameters)

def oneLight : Responses (Color × Int) where
  getIndicators d := (["Power"], d)
  getInstance _ d := d
  getColor _ d := d
  setState _ _ d := d
  setColor _ color _ d := (color, d.2)
  getBrightness _ _ d := (d.2, d)
  setBrightness _ brightness _ d := (d.1, brightness)

/-- The lookup of the colour throws, and the brightness is set. -/
theorem unknown_colour_reported_set :
    ¬ ∀ (responses : Responses (Color × Int)) (faults : ℕ → Bool) (this : InstanceId)
      (parameters : JsonObject) (s : State ((Color × Int) × ℕ)),
      (setLED (responses.withFaults faults) this parameters s).1 = true ↔
        ∀ i, calls s.panel ≤ i →
          i < calls (setLED (responses.withFaults faults) this parameters s).2.panel →
            faults i = false := by
  intro h
  have htruth := h oneLight (fun i ↦ i = 1) 1
    [("ledIndicator", .ofString "power_led"), ("color", .ofString "unknown"),
      ("brightness", .ofNat 50)] (.init ((.value 0, 100), 0))
  have hfault := htruth.mp (by decide +kernel) 1 (by decide) (by decide +kernel)
  exact absurd hfault (by decide)

end Peripherals.FrontPanel
