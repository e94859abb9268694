import Peripherals.FrontPanel.BlinkInvariant
import Peripherals.FrontPanel.Hardware
import Peripherals.FrontPanel.Lights

namespace Peripherals.FrontPanel

open Attempt Execution

variable {D : Type} {dev : Device D} {lit : D → String → Bool} {p : Panel D} {s s' : State D}
  {name : String} {Q : Unit → Panel D → Prop} {E : Panel D → Prop} {a : Action} {l : Lights}
  {bState : Bool}

/-- A device on which no call throws, and only `setState` switches lights. -/
structure Working (dev : Device D) (lit : D → String → Bool) : Prop extends
    Attribute dev lit dev.setState (fun _ ↦ false) where
  getIndicators : ∀ d, (dev.getIndicators d).1.isSome = true ∧ lit (dev.getIndicators d).2 = lit d
  getBrightness : ∀ name persist d, (dev.getBrightness name persist d).1.isSome = true ∧
    lit (dev.getBrightness name persist d).2 = lit d
  setBrightness : ∀ name brightness persist d,
    (dev.setBrightness name brightness persist d).1.isSome = true ∧
      lit (dev.setBrightness name brightness persist d).2 = lit d

def view (lit : D → String → Bool) (p : Panel D) : Lights :=
  ⟨p.powerStatus, p.isMessageLedOn, p.isRecordLedOn, p.fpIndicators, lit p.device⟩

theorem Working.wp_setState (h : Working dev lit) (hp : view lit p = l) :
    wp (onIndicator dev name (dev.setState name bState))
      (fun _ p' ↦ view lit p' = l.set name bState) E p := by
  apply h.toAttribute.wp_write rfl
  intro d hd
  simp [← hp, view, Lights.set, hd]

/-- Any other call on an indicator succeeds and leaves the lights as they are. -/
theorem Working.wp_other {α : Type} (h : Working dev lit) {f : D → Option α × D}
    {Q : α → Panel D → Prop} (hf : ∀ d, (f d).1.isSome = true ∧ lit (f d).2 = lit d)
    (hQ : ∀ v d, lit d = lit p.device → Q v { p with device := d }) :
    wp (onIndicator dev name f) Q E p := by
  have hfound := h.found name p.device rfl
  have hlookup := h.lookup name p.device
  rw [onIndicator, wp_bind, wp_call]
  rcases hi : dev.getInstance name p.device with ⟨_ | _, d⟩
  · simp [hi] at hfound
  · rw [hi] at hlookup
    obtain ⟨hsome, hsame⟩ := hf d
    simp only [wp_call]
    rcases hw : f d with ⟨_ | v, d'⟩
    · simp [hw] at hsome
    · rw [hw, hlookup] at hsame
      exact hQ v d' hsame

theorem Working.wp_powerOnAll (h : Working dev lit) (hp : view lit p = l) :
    wp (do
        if (← get).isMessageLedOn then
          onIndicator dev "Message" (dev.setState "Message" true)
        if (← get).isRecordLedOn then
          onIndicator dev "Record" (dev.setState "Record" true)
        onIndicator dev "Power" (dev.setState "Power" true))
      (fun _ p' ↦ view lit p' = l.powerOnAll) E p := by
  have hrecord {p : Panel D} {l : Lights} (hp : view lit p = l) :
      wp (if p.isRecordLedOn then do
            onIndicator dev "Record" (dev.setState "Record" true)
            onIndicator dev "Power" (dev.setState "Power" true)
          else onIndicator dev "Power" (dev.setState "Power" true))
        (fun _ p' ↦ view lit p' =
          (if l.isRecordLedOn then l.set "Record" true else l).set "Power" true) E p := by
    have hflag : p.isRecordLedOn = l.isRecordLedOn := congrArg Lights.isRecordLedOn hp
    rw [hflag]
    split
    · rw [wp_bind]
      apply wp_mono _ (fun _ hE ↦ hE) (h.wp_setState hp)
      intro _ p' hp'
      exact h.wp_setState hp'
    · exact h.wp_setState hp
  have hflag : p.isMessageLedOn = l.isMessageLedOn := congrArg Lights.isMessageLedOn hp
  simp only [wp_bind, wp_get, hflag, Lights.powerOnAll]
  split
  · rw [wp_bind]
    apply wp_mono _ (fun _ hE ↦ hE) (h.wp_setState hp)
    intro _ p' hp'
    exact hrecord hp'
  · exact hrecord hp

theorem Working.powerOn_view (h : Working dev lit) (fp_indicator : FrontPanelIndicator)
    (p : Panel D) : view lit ((powerOnIndicator dev fp_indicator).run p).2 =
      (view lit p).powerOn fp_indicator := by
  apply wp_state (P := fun p' ↦ view lit p' = (view lit p).powerOn fp_indicator)
  simp only [powerOnIndicator, wp_bind, wp_get]
  have hpower : p.powerStatus = (view lit p).powerStatus := rfl
  unfold Lights.powerOn
  rw [hpower]
  split
  · cases fp_indicator with
    | message => exact h.wp_setState rfl
    | record => exact h.wp_setState rfl
    | remote => exact h.wp_setState rfl
    | rfbypass => exact h.wp_setState rfl
    | power => exact h.wp_setState rfl
    | clock => rfl
    | all => exact h.wp_powerOnAll rfl
  · rfl

/-- A loop whose rounds switch an indicator off each. -/
theorem wp_darken (lit : D → String → Bool) {body : String → PUnit → Try D (ForInStep PUnit)}
    {names : List String} (hbody : ∀ name p, wp (body name ⟨⟩)
      (fun r p' ↦ r = .yield ⟨⟩ ∧ view lit p' = (view lit p).set name false) E p) :
    wp (forIn names ⟨⟩ body) (fun _ p' ↦ view lit p' = (view lit p).darken names) E p := by
  apply wp_forIn (I := fun pre p' ↦ view lit p' = (view lit p).darken pre)
  · simp [Lights.darken]
  · intro pre name post p' _ hpre
    apply wp_mono _ (fun _ hE ↦ hE) (hbody name p')
    intro r p'' hr
    obtain ⟨hyield, hview⟩ := hr
    refine ⟨hyield, ?_⟩
    rw [hview, hpre]
    simp only [Lights.set, Lights.darken, List.mem_append, List.mem_singleton]
    congr 1
    funext other
    by_cases ho : other = name
    · simp [ho]
    · simp [ho]

theorem Working.powerOff_view (h : Working dev lit) (fp_indicator : FrontPanelIndicator)
    (p : Panel D) : view lit ((powerOffIndicator dev fp_indicator).run p).2 =
      (view lit p).powerOff fp_indicator := by
  apply wp_state (P := fun p' ↦ view lit p' = (view lit p).powerOff fp_indicator)
  cases fp_indicator with
  | message => exact h.wp_setState rfl
  | record => exact h.wp_setState rfl
  | remote => exact h.wp_setState rfl
  | rfbypass => exact h.wp_setState rfl
  | power => exact h.wp_setState rfl
  | clock => rfl
  | all =>
    simp only [powerOffIndicator, wp_bind, wp_get, wp_pure]
    apply wp_darken lit
    intro name p
    simp only [wp_bind, wp_pure, true_and]
    exact h.wp_setState rfl

theorem Working.init_view (h : Working dev lit) {names : List String}
    (hnames : (dev.getIndicators p.device).1 = some names) (poweredOn : Bool)
    (profileType : Profile) :
    view lit ((initIndicators dev poweredOn profileType).run p).2 =
      (view lit p).initial names poweredOn profileType := by
  apply wp_state (P := fun p' ↦ view lit p' = (view lit p).initial names poweredOn profileType)
  have hpower {p : Panel D} {l : Lights} {E : Panel D → Prop} (hp : view lit p = l) :
      wp (if l.powerStatus then onIndicator dev "Power" (dev.setState "Power" true) else pure ⟨⟩)
        (fun _ p' ↦ view lit p' = if l.powerStatus then l.set "Power" true else l) E p := by
    split
    · exact h.wp_setState hp
    · exact hp
  have hsame := (h.getIndicators p.device).2
  simp only [initIndicators, wp_bind, wp_call]
  rcases hd : dev.getIndicators p.device with ⟨r, d⟩
  rw [hd] at hnames hsame
  obtain rfl : r = some names := hnames
  simp only [wp_modify]
  apply h.wp_other (h.getBrightness "Power" false)
  intro brightness d' hd'
  simp only [wp_get]
  set p₁ : Panel D := { p with
    device := d'
    globalLedBrightness := brightness
    powerStatus := p.powerStatus || poweredOn
    m_lights := addLights p.m_lights names
    fpIndicators := names }
  have hp₁ : view lit p₁ =
      { view lit p with names, powerStatus := (view lit p).powerStatus || poweredOn } := by
    have hlit : lit d' = lit p.device := hd'.trans hsame
    simp [p₁, view, hlit]
  unfold Lights.initial
  by_cases htv : profileType = .tv
  · simp only [htv, ne_eq, not_true_eq_false, if_false, if_true]
    exact hpower hp₁
  · simp only [htv, ne_eq, not_false_eq_true, if_false, if_true, wp_bind]
    refine wp_mono ?_ (fun _ hE ↦ hE) (wp_darken lit ?_)
    · intro _ p' hp'
      rw [hp₁] at hp'
      exact hpower hp'
    · intro name p
      split
      · simp only [wp_bind, wp_pure, true_and]
        apply h.wp_other (h.setBrightness name brightness false)
        intro _ d hd
        apply h.wp_setState
        simp [view, hd]
      · simp only [wp_bind, wp_pure, true_and]
        exact h.wp_setState rfl

theorem Working.setBrightness_view (h : Working dev lit) (b : Int) (p : Panel D) :
    view lit ((setIndicatorsBrightness dev b).run p).2 = view lit p := by
  apply wp_state (P := fun p' ↦ view lit p' = view lit p)
  simp only [setIndicatorsBrightness, wp_bind, wp_get, wp_pure]
  apply wp_forIn (I := fun _ p' ↦ view lit p' = view lit p) rfl
  intro pre name post p' _ hp'
  simp only [wp_bind, wp_pure, true_and]
  apply h.wp_other (h.setBrightness name b true)
  intro _ d hd
  rw [← hp']
  simp [view, hd]

theorem step_view (h : Working dev lit) (ha : a.Switches)
    (hs : step dev s a = some s') : view lit s'.panel = (view lit s.panel).step a := by
  rcases step_method hs with ⟨_, _, _, rfl⟩ | ⟨_, rfl⟩ | ⟨this, -, hm⟩
  · exact ha.elim
  · exact ha.elim
  · cases a with
    | setPowerStatus bPowerStatus =>
      obtain rfl := Option.some.inj hm
      rfl
    | powerOnLed fp_indicator =>
      obtain rfl := Option.some.inj hm
      exact h.powerOn_view fp_indicator s.panel
    | powerOffLed fp_indicator =>
      obtain rfl := Option.some.inj hm
      exact h.powerOff_view fp_indicator s.panel
    | powerOnAllLed =>
      obtain rfl := Option.some.inj hm
      exact h.powerOn_view .all s.panel
    | powerOffAllLed =>
      obtain rfl := Option.some.inj hm
      exact h.powerOff_view .all s.panel
    | setBrightness fp_brightness =>
      obtain rfl := Option.some.inj hm
      refine (h.powerOn_view .all _).trans ?_
      rw [h.setBrightness_view]
      rfl
    | instance_ | deinit | start | stop | getBrightness | setLED | setBlink | fire =>
      exact ha.elim

variable {s₀ : State D} {ops : List Action} {this : InstanceId} {poweredOn : Bool}
  {profileType : Profile}

theorem tells_run {s₁ : State D} (h : Working dev lit) {history : History}
    (ht : Tells history (view lit s₁.panel)) (hops : ∀ a ∈ ops, a.Switches)
    (hrun : Run (step dev) s₁ ops s) :
    Tells (ops.foldl History.step history) (view lit s.panel) := by
  induction hrun with
  | nil => exact ht
  | snoc _ hs ih =>
    simp only [List.forall_mem_append, List.forall_mem_singleton] at hops
    obtain ⟨hops, ha⟩ := hops
    rw [List.foldl_append, step_view h ha hs]
    exact (ih hops).step _

theorem run_tells (h : Working dev lit) (hfresh : s₀.panel.initDone = false)
    (hops : ∀ a ∈ ops, a.Switches)
    (hrun : Run (step dev) s₀ (.instance_ this poweredOn profileType :: ops) s) :
    Tells (ops.foldl History.step (.start (view lit s₀.panel) poweredOn profileType))
      (view lit s.panel) := by
  obtain ⟨s₁, hs₁, hrest⟩ := run_cons.mp hrun
  obtain rfl : instance_ dev this poweredOn profileType s₀ = s₁ := Option.some.inj hs₁
  obtain ⟨names, hnames⟩ := Option.isSome_iff_exists.mp (h.getIndicators s₀.panel.device).1
  have hview : view lit (instance_ dev this poweredOn profileType s₀).panel =
      (view lit s₀.panel).initial names poweredOn profileType := by
    rw [← h.init_view hnames]
    simp [instance_, hfresh, view]
  apply tells_run h _ hops hrest
  rw [hview]
  exact tells_start (view lit s₀.panel) names poweredOn profileType

/-- Every lit indicator survives `powerOffAllLed` and `powerOnAllLed` if and only
if the calls before them left no stray among the listed ones. -/
theorem lights_survive_iff (h : Working dev lit) (hfresh : s₀.panel.initDone = false)
    (hops : ∀ a ∈ ops, a.Switches)
    (hrun : Run (step dev) s₀ (.instance_ this poweredOn profileType :: ops) s)
    (hpower : s.panel.powerStatus = true) :
    (∀ name, lit s.panel.device name = true →
      lit (powerOnAllLed dev this (powerOffAllLed dev this s).2).2.panel.device name = true) ↔
      ∀ name ∈ s.panel.fpIndicators, name ≠ "Power" →
        (ops.foldl History.step (.start (view lit s₀.panel) poweredOn profileType)).stray name =
          false := by
  have htells := run_tells h hfresh hops hrun
  have hoff := h.powerOff_view .all s.panel
  have hon := h.powerOn_view .all (powerOffAllLed dev this s).2.panel
  have hcycle : lit (powerOnAllLed dev this (powerOffAllLed dev this s).2).2.panel.device =
      (((view lit s.panel).powerOff .all).powerOn .all).lit := by
    rw [← hoff]
    exact congrArg Lights.lit hon
  have hsurvives := Lights.survives_iff (l := view lit s.panel) hpower
  rw [hcycle]
  refine hsurvives.trans ?_
  refine ⟨?_, ?_⟩
  · intro hall name hname hne
    rw [← htells.stray name hname hne]
    exact hall name hname hne
  · intro hall name hname hne
    rw [htells.stray name hname hne]
    exact hall name hname hne

theorem lampDevice_working : Working (lampDevice fun _ ↦ false) Lamps.lit where
  toAttribute := lampDevice_lit _
  getIndicators _ := ⟨rfl, rfl⟩
  getBrightness _ _ _ := ⟨rfl, rfl⟩
  setBrightness _ _ _ _ := ⟨rfl, rfl⟩

def threeLamps : Lamps := ⟨["Power", "Message", "Remote"], fun _ ↦ false, fun _ ↦ 50⟩

def litLamp (fp_indicator : FrontPanelIndicator) : State Lamps :=
  (powerOnLed (lampDevice fun _ ↦ false) 1 fp_indicator
    (instance_ (lampDevice fun _ ↦ false) 1 true .stb (.init threeLamps))).2

theorem lights_survive_iff_message :
    (∀ name, (litLamp .message).panel.device.lit name = true →
      (powerOnAllLed (lampDevice fun _ ↦ false) 1
        (powerOffAllLed (lampDevice fun _ ↦ false) 1
          (litLamp .message)).2).2.panel.device.lit name = true) ↔
      ∀ name ∈ (litLamp .message).panel.fpIndicators, name ≠ "Power" →
        ([Action.powerOnLed .message].foldl History.step
          (.start (view Lamps.lit (State.init threeLamps).panel) true .stb)).stray name = false :=
  lights_survive_iff lampDevice_working rfl (by simp [Action.Switches])
    (.cons rfl (.one rfl)) (by decide +kernel)

/-- No flag brings the light of the remote control back. -/
theorem remote_light_lost :
    ¬ ∀ (device : Lamps) (this : InstanceId) (poweredOn : Bool) (profileType : Profile)
      (ops : List Action) (s : State Lamps), (∀ a ∈ ops, a.Switches) →
      Run (step (lampDevice fun _ ↦ false)) (.init device)
        (.instance_ this poweredOn profileType :: ops) s →
      s.panel.powerStatus = true → ∀ name ∈ s.panel.fpIndicators,
      s.panel.device.lit name = true →
        (powerOnAllLed (lampDevice fun _ ↦ false) this
          (powerOffAllLed (lampDevice fun _ ↦ false) this s).2).2.panel.device.lit name =
            true := by
  intro h
  have hlit := h threeLamps 1 true .stb [.powerOnLed .remote] (litLamp .remote)
    (by simp [Action.Switches]) (.cons rfl (.one rfl)) (by decide +kernel) "Remote"
    (by decide +kernel) (by decide +kernel)
  exact absurd hlit (by decide +kernel)

end Peripherals.FrontPanel
