import Peripherals.FrontPanel.LightRequests

namespace Peripherals.FrontPanel

open Attempt Execution Thunder

/-- The calls other than those of `setState` that switch an indicator on keep `P`. -/
structure Dark {D : Type} (dev : Device D) (P : D → Prop) : Prop where
  getIndicators : ∀ d, P d → P (dev.getIndicators d).2
  getInstance : ∀ name d, P d → P (dev.getInstance name d).2
  getColor : ∀ name d, P d → P (dev.getColor name d).2
  switchOff : ∀ name d, P d → P (dev.setState name false d).2
  setColor : ∀ name color persist d, P d → P (dev.setColor name color persist d).2
  getBrightness : ∀ name persist d, P d → P (dev.getBrightness name persist d).2
  setBrightness : ∀ name brightness persist d, P d →
    P (dev.setBrightness name brightness persist d).2

/-- The device keeps `P`, and the panel remembers no more than has been asked for; `W` says
whether the power may be on. -/
structure Held {D : Type} (P : D → Prop) (W : Prop) (asked : String → Prop) (p : Panel D) :
    Prop where
  device : P p.device
  power : p.powerStatus = true → W
  message : p.isMessageLedOn = true → asked "Message"
  record : p.isRecordLedOn = true → asked "Record"

def lightOf : FrontPanelIndicator → Option String
  | .message => some "Message"
  | .record => some "Record"
  | .remote => some "Remote"
  | .rfbypass => some "RfByPass"
  | .clock | .power | .all => none

variable {D α : Type} {dev : Device D} {P : D → Prop} {W : Prop} {asked : String → Prop}
  {p : Panel D} {name : String} {Q : α → Panel D → Prop} {E : Panel D → Prop}

theorem Held.of_device (h : Held P W asked p) {d : D} (hd : P d) :
    Held P W asked { p with device := d } :=
  ⟨hd, h.power, h.message, h.record⟩

theorem Held.wp_call {f : D → Option α × D} (h : Held P W asked p)
    (hf : ∀ d, P d → P (f d).2) :
    wp (call f) (fun _ p' ↦ Held P W asked p') (Held P W asked) p :=
  wp_call_of_frame (h.of_device (hf _ h.device))

/-- A loop over indicators whose rounds keep what is held. -/
theorem wp_forIn_held {names : List String} {body : String → PUnit → Try D (ForInStep PUnit)}
    (h : Held P W asked p) (hbody : ∀ name p, Held P W asked p → wp (body name ⟨⟩)
      (fun r p' ↦ r = .yield ⟨⟩ ∧ Held P W asked p') (Held P W asked) p) :
    wp (forIn names ⟨⟩ body) (fun _ p' ↦ Held P W asked p') (Held P W asked) p :=
  wp_forIn (I := fun _ p' ↦ Held P W asked p') h fun _ name _ p' _ hp' ↦ hbody name p' hp'

section Blocks

variable (hdark : Dark dev P)

include hdark

theorem Held.wp_onIndicator {f : D → Option α × D} (h : Held P W asked p)
    (hf : ∀ d, P d → P (f d).2) :
    wp (onIndicator dev name f) (fun _ p' ↦ Held P W asked p') (Held P W asked) p := by
  rw [onIndicator, wp_bind]
  refine wp_mono ?_ (fun _ h ↦ h) (h.wp_call (hdark.getInstance name))
  intro _ p' hp'
  exact hp'.wp_call hf

theorem Held.applyBrightness (h : Held P W asked p) (brightness : Int) :
    Held P W asked ((applyBrightness dev name brightness).run p).2 := by
  apply wp_state
  have hset : ∀ {p}, Held P W asked p → ∀ b, wp (onIndicator dev name
      (dev.setBrightness name b false)) (fun _ p' ↦ Held P W asked p') (Held P W asked) p :=
    fun hp b ↦ hp.wp_onIndicator hdark (hdark.setBrightness name b false)
  simp only [FrontPanel.applyBrightness]
  split
  · simp only [wp_bind]
    refine wp_mono ?_ (fun _ h ↦ h) (h.wp_onIndicator hdark (hdark.getBrightness name true))
    intro b p' hp'
    exact hset hp' b
  · exact hset h brightness

theorem Held.setColorNamed (h : Held P W asked p) (color : String) :
    Held P W asked ((do call (dev.getInstance name)
                        call (dev.getColor color)
                        call (dev.setColor name (.named color) false) : Try D Unit).run p).2 := by
  apply wp_state
  simp only [wp_bind]
  refine wp_mono ?_ (fun _ h ↦ h) (h.wp_call (hdark.getInstance name))
  intro _ p' hp'
  refine wp_mono ?_ (fun _ h ↦ h) (hp'.wp_call (hdark.getColor color))
  intro _ p'' hp''
  exact hp''.wp_call (hdark.setColor name (.named color) false)

theorem Held.setColorValue (h : Held P W asked p) (color : Color) (persist : Bool) :
    Held P W asked ((onIndicator dev name (dev.setColor name color persist)).run p).2 :=
  wp_state (h.wp_onIndicator hdark (hdark.setColor name color persist))

theorem Held.setIndicator (h : Held P W asked p) (parameters : JsonObject) :
    Held P W asked (setIndicator dev parameters p).2 := by
  rw [setIndicator_eq]
  refine Held.applyBrightness hdark ?_ _
  cases ledColor parameters with
  | none => exact h
  | some color =>
    cases color with
    | named colorName => exact h.setColorNamed hdark colorName
    | value colorValue => exact h.setColorValue hdark (.value colorValue) true

theorem Held.showFrame (h : Held P W asked p) (blinkInfo : FrontPanelBlinkInfo) :
    Held P W asked (showFrame dev blinkInfo p) := by
  by_cases hvalue : blinkInfo.colorMode = 1
  · simp only [FrontPanel.showFrame, if_pos hvalue]
    exact (h.setColorValue hdark _ _).applyBrightness hdark _
  · by_cases hnamed : blinkInfo.colorMode = 2
    · simp only [FrontPanel.showFrame, if_neg hvalue, if_pos hnamed]
      exact (h.setColorNamed hdark _).applyBrightness hdark _
    · simp only [FrontPanel.showFrame, if_neg hvalue, if_neg hnamed]
      exact h.applyBrightness hdark _

theorem Held.readBrightness (h : Held P W asked p) :
    Held P W asked ((readBrightness dev).run p).2 := by
  apply wp_state
  simp only [FrontPanel.readBrightness, wp_bind]
  refine wp_mono ?_ (fun _ h ↦ h) (h.wp_onIndicator hdark (hdark.getBrightness "Power" false))
  intro b p' hp'
  rw [wp_modify]
  exact ⟨hp'.device, hp'.power, hp'.message, hp'.record⟩

theorem Held.setIndicatorsBrightness (h : Held P W asked p) (brightness : Int) :
    Held P W asked ((setIndicatorsBrightness dev brightness).run p).2 := by
  apply wp_state
  simp only [FrontPanel.setIndicatorsBrightness, wp_bind, wp_get, wp_pure]
  apply wp_forIn_held h
  intro name p hp
  simp only [wp_bind, wp_pure, true_and]
  exact hp.wp_onIndicator hdark (hdark.setBrightness name brightness true)

theorem Held.powerOff (h : Held P W asked p) {asked' : String → Prop}
    (fp_indicator : FrontPanelIndicator)
    (hasked : ∀ name, lightOf fp_indicator ≠ some name → asked name → asked' name) :
    Held P W asked' ((powerOffIndicator dev fp_indicator).run p).2 := by
  have hoff : ∀ {p} name, Held P W asked' p → wp (onIndicator dev name (dev.setState name false))
      (fun _ p' ↦ Held P W asked' p') (Held P W asked') p :=
    fun name hp ↦ hp.wp_onIndicator hdark (hdark.switchOff name)
  have hmessage (hne : lightOf fp_indicator ≠ some "Message") (hon : p.isMessageLedOn = true) :
      asked' "Message" := hasked "Message" hne (h.message hon)
  have hrecord (hne : lightOf fp_indicator ≠ some "Record") (hon : p.isRecordLedOn = true) :
      asked' "Record" := hasked "Record" hne (h.record hon)
  apply wp_state
  cases fp_indicator with
  | message =>
    refine hoff (p := { p with isMessageLedOn := false }) "Message" ?_
    exact ⟨h.device, h.power, fun hon ↦ Bool.noConfusion hon, hrecord (by simp [lightOf])⟩
  | record =>
    refine hoff (p := { p with isRecordLedOn := false }) "Record" ?_
    exact ⟨h.device, h.power, hmessage (by simp [lightOf]), fun hon ↦ Bool.noConfusion hon⟩
  | remote =>
    exact hoff "Remote" ⟨h.device, h.power, hmessage (by simp [lightOf]),
      hrecord (by simp [lightOf])⟩
  | rfbypass =>
    exact hoff "RfByPass" ⟨h.device, h.power, hmessage (by simp [lightOf]),
      hrecord (by simp [lightOf])⟩
  | power =>
    exact hoff "Power" ⟨h.device, h.power, hmessage (by simp [lightOf]),
      hrecord (by simp [lightOf])⟩
  | clock => exact ⟨h.device, h.power, hmessage (by simp [lightOf]), hrecord (by simp [lightOf])⟩
  | all =>
    have hstart : Held P W asked' p :=
      ⟨h.device, h.power, hmessage (by simp [lightOf]), hrecord (by simp [lightOf])⟩
    simp only [powerOffIndicator, wp_bind, wp_get, wp_pure]
    apply wp_forIn_held hstart
    intro name p hp
    simp only [wp_bind, wp_pure, true_and]
    exact hoff name hp

end Blocks

section Lit

variable (hdark : Dark dev P)
  (hlit : W → ∀ name, asked name → ∀ d, P d → P (dev.setState name true d).2)

include hdark hlit

theorem Held.wp_lit (h : Held P W asked p) (hpowered : W) (hname : asked name) :
    wp (onIndicator dev name (dev.setState name true)) (fun _ p' ↦ Held P W asked p')
      (Held P W asked) p :=
  h.wp_onIndicator hdark (hlit hpowered name hname)

theorem Held.startIndicators (h : Held P W asked p) (hpower : asked "Power") :
    Held P W asked ((startIndicators dev).run p).2 := by
  have hrest : ∀ {p}, Held P W asked p → wp (do
      let names ← call dev.getIndicators
      modify fun p ↦ { p with m_lights := addLights p.m_lights names } : Try D Unit)
      (fun _ p' ↦ Held P W asked p') (Held P W asked) p := by
    intro p hp
    simp only [wp_bind]
    refine wp_mono ?_ (fun _ h ↦ h) (hp.wp_call hdark.getIndicators)
    intro names p' hp'
    rw [wp_modify]
    exact ⟨hp'.device, hp'.power, hp'.message, hp'.record⟩
  apply wp_state
  simp only [FrontPanel.startIndicators, wp_bind, wp_get, wp_ite] at hrest ⊢
  split
  · rename_i hon
    refine wp_mono ?_ (fun _ h ↦ h) (h.wp_lit hdark hlit (h.power hon) hpower)
    intro _ p' hp'
    exact hrest hp'
  · exact hrest h

theorem Held.powerOn (h : Held P W asked p) (hpower : asked "Power")
    (fp_indicator : FrontPanelIndicator)
    (hasked : ∀ name, lightOf fp_indicator = some name → asked name) :
    Held P W asked ((powerOnIndicator dev fp_indicator).run p).2 := by
  apply wp_state
  simp only [powerOnIndicator, wp_bind, wp_get]
  split
  · rename_i hon
    have hpowered := h.power hon
    cases fp_indicator with
    | message =>
      have hname := hasked "Message" rfl
      refine Held.wp_lit (p := { p with isMessageLedOn := true }) hdark hlit ?_ hpowered hname
      exact ⟨h.device, h.power, fun _ ↦ hname, h.record⟩
    | record =>
      have hname := hasked "Record" rfl
      refine Held.wp_lit (p := { p with isRecordLedOn := true }) hdark hlit ?_ hpowered hname
      exact ⟨h.device, h.power, h.message, fun _ ↦ hname⟩
    | remote => exact h.wp_lit hdark hlit hpowered (hasked "Remote" rfl)
    | rfbypass => exact h.wp_lit hdark hlit hpowered (hasked "RfByPass" rfl)
    | power => exact h.wp_lit hdark hlit hpowered hpower
    | clock => exact h
    | all =>
      have hlast : ∀ {p}, Held P W asked p → wp (onIndicator dev "Power"
            (dev.setState "Power" true))
          (fun _ p' ↦ Held P W asked p') (Held P W asked) p :=
        fun hp ↦ hp.wp_lit hdark hlit hpowered hpower
      have hrecord : ∀ {p}, Held P W asked p → wp (if p.isRecordLedOn then do
            onIndicator dev "Record" (dev.setState "Record" true)
            onIndicator dev "Power" (dev.setState "Power" true)
          else onIndicator dev "Power" (dev.setState "Power" true) : Try D Unit)
          (fun _ p' ↦ Held P W asked p') (Held P W asked) p := by
        intro p hp
        split
        · rw [wp_bind]
          refine wp_mono ?_ (fun _ h ↦ h) (hp.wp_lit hdark hlit hpowered (hp.record ‹_›))
          exact fun _ p' hp' ↦ hlast hp'
        · exact hlast hp
      simp only [wp_bind, wp_get]
      split
      · rw [wp_bind]
        refine wp_mono ?_ (fun _ h ↦ h) (h.wp_lit hdark hlit hpowered (h.message ‹_›))
        exact fun _ p' hp' ↦ hrecord hp'
      · exact hrecord h
  · exact h

theorem Held.initIndicators (h : Held P W asked p) (hpower : asked "Power") (poweredOn : Bool)
    (hpowered : poweredOn = true → W) (profileType : Profile) :
    Held P W asked ((initIndicators dev poweredOn profileType).run p).2 := by
  apply wp_state
  simp only [FrontPanel.initIndicators, wp_bind]
  refine wp_mono ?_ (fun _ h ↦ h) (h.wp_call hdark.getIndicators)
  intro names p₁ hp₁
  rw [wp_modify]
  have hp₂ : Held P W asked { p₁ with
      fpIndicators := names
      m_lights := addLights p₁.m_lights names
      powerStatus := p₁.powerStatus || poweredOn } := by
    refine ⟨hp₁.device, fun hor ↦ ?_, hp₁.message, hp₁.record⟩
    rcases Bool.or_eq_true_iff.mp hor with hon | hon
    · exact hp₁.power hon
    · exact hpowered hon
  refine wp_mono ?_ (fun _ h ↦ h) (hp₂.wp_onIndicator hdark (hdark.getBrightness "Power" false))
  intro brightness p₃ hp₃
  rw [wp_modify, wp_get]
  have hp₄ : Held P W asked { p₃ with globalLedBrightness := brightness } :=
    ⟨hp₃.device, hp₃.power, hp₃.message, hp₃.record⟩
  have hlast : ∀ {p}, Held P W asked p → wp (if p₃.powerStatus then
        onIndicator dev "Power" (dev.setState "Power" true) else pure ⟨⟩ : Try D Unit)
      (fun _ p' ↦ Held P W asked p') (Held P W asked) p := by
    intro p hp
    split
    · exact hp.wp_lit hdark hlit (hp₃.power ‹_›) hpower
    · exact hp
  by_cases htv : profileType = .tv
  · simp only [htv, ne_eq, not_true_eq_false, if_false]
    exact hlast hp₄
  · simp only [htv, ne_eq, not_false_eq_true, if_true, wp_bind]
    refine wp_mono (fun _ _ hp ↦ hlast hp) (fun _ h ↦ h) (wp_forIn_held hp₄ ?_)
    intro name p hp
    have hoff : ∀ {p}, Held P W asked p → wp (onIndicator dev name (dev.setState name false))
        (fun _ p' ↦ Held P W asked p') (Held P W asked) p :=
      fun hp ↦ hp.wp_onIndicator hdark (hdark.switchOff name)
    split
    · simp only [wp_bind, wp_pure, true_and]
      refine wp_mono ?_ (fun _ h ↦ h)
        (hp.wp_onIndicator hdark (hdark.setBrightness name brightness false))
      exact fun _ p' hp' ↦ hoff hp'
    · simp only [wp_bind, wp_pure, true_and]
      exact hoff hp

end Lit

section Runs

variable {s s' : State D} {a : Action} {tr : List Action} {device : D}

def Action.asks (name : String) : Action → Option Bool
  | .powerOnLed fp_indicator => if lightOf fp_indicator = some name then some true else none
  | .powerOffLed fp_indicator => if lightOf fp_indicator = some name then some false else none
  | _ => none

/-- The light for the power, or one that was asked for and has not been asked to go off since. -/
def Requested (tr : List Action) (name : String) : Prop :=
  name = "Power" ∨ latest (Action.asks name) tr = some true

def Powered (s : State D) (a : Action) : Prop :=
  s.panel.powerStatus = true ∨ ∃ this profileType, a = .instance_ this true profileType

theorem Requested.kept (h : Requested tr name) (hasks : a.asks name ≠ some false) :
    Requested (tr ++ [a]) name := by
  refine h.imp_right fun hlatest ↦ ?_
  rw [latest_snoc, hlatest]
  cases hv : a.asks name with
  | none => rfl
  | some v =>
    cases v with
    | true => rfl
    | false => exact (hasks hv).elim

theorem Held.mono {W' : Prop} {asked' : String → Prop} (h : Held P W asked p) (hW : W → W')
    (hasked : ∀ name, asked name → asked' name) : Held P W' asked' p :=
  ⟨h.device, fun hon ↦ hW (h.power hon), fun hon ↦ hasked _ (h.message hon),
    fun hon ↦ hasked _ (h.record hon)⟩

theorem Shows.held (hdark : Dark dev P) (hshows : Shows dev s s') (h : Held P W asked s.panel) :
    Held P W asked s'.panel := by
  obtain ⟨frames, -, hpanel⟩ := hshows
  rw [hpanel]
  exact List.foldlRecOn frames _ h fun p hp frame _ ↦ hp.showFrame hdark frame

theorem step_held (hdark : Dark dev P)
    (hlit : Powered s a → ∀ name, Requested (tr ++ [a]) name →
      ∀ d, P d → P (dev.setState name true d).2)
    (hs : step dev s a = some s') (h : Held P True (Requested tr) s.panel) :
    Held P True (Requested (tr ++ [a])) s'.panel := by
  have hpower : Requested (tr ++ [a]) "Power" := .inl rfl
  have hbefore : Held P (Powered s a) (Requested tr) s.panel :=
    ⟨h.device, Or.inl, h.message, h.record⟩
  suffices hheld : (∃ b, a = .setPowerStatus b ∧ s' = setPowerStatus b s) ∨
      Held P (Powered s a) (Requested (tr ++ [a])) s'.panel by
    rcases hheld with ⟨b, rfl, rfl⟩ | hheld
    · have hafter := h.mono id fun _ hasked ↦ hasked.kept (a := .setPowerStatus b) nofun
      exact ⟨hafter.device, fun _ ↦ trivial, hafter.message, hafter.record⟩
    · exact hheld.mono (fun _ ↦ trivial) fun _ ↦ id
  rcases step_method hs with ⟨this, poweredOn, profileType, rfl⟩ | ⟨k, rfl⟩ | ⟨this, -, hm⟩
  · right
    obtain rfl : instance_ dev this poweredOn profileType s = s' := Option.some.inj hs
    have hkept := hbefore.mono id fun _ hasked ↦
      hasked.kept (a := .instance_ this poweredOn profileType) nofun
    unfold instance_
    split
    · exact hkept
    · have hinit := hkept.initIndicators hdark hlit hpower poweredOn
        (fun hon ↦ .inr ⟨this, profileType, by rw [hon]⟩) profileType
      exact ⟨hinit.device, hinit.power, hinit.message, hinit.record⟩
  · exact .inr ((fire_shows hs).held hdark
      (hbefore.mono id fun _ hasked ↦ hasked.kept (a := .fire k) nofun))
  · cases a with
    | instance_ this poweredOn profileType => cases hm
    | fire k => cases hm
    | setPowerStatus b => exact .inl ⟨b, rfl, (Option.some.inj hm).symm⟩
    | powerOffLed fp_indicator =>
      obtain rfl := Option.some.inj hm
      right
      refine hbefore.powerOff hdark fp_indicator fun name hne hasked ↦ hasked.kept ?_
      simp [Action.asks, hne]
    | powerOnLed fp_indicator =>
      obtain rfl := Option.some.inj hm
      have hkept := hbefore.mono id fun _ hasked ↦ hasked.kept (a := .powerOnLed fp_indicator)
        (by simp [Action.asks])
      right
      refine hkept.powerOn hdark hlit hpower fp_indicator fun name hname ↦ .inr ?_
      rw [latest_snoc]
      simp [Action.asks, hname]
    | powerOnAllLed =>
      obtain rfl := Option.some.inj hm
      have hkept := hbefore.mono id fun _ hasked ↦ hasked.kept (a := .powerOnAllLed) nofun
      exact .inr (hkept.powerOn hdark hlit hpower .all nofun)
    | powerOffAllLed =>
      obtain rfl := Option.some.inj hm
      have hkept := hbefore.mono id fun _ hasked ↦ hasked.kept (a := .powerOffAllLed) nofun
      exact .inr (hkept.powerOff hdark .all fun _ _ ↦ id)
    | setBrightness b =>
      obtain rfl := Option.some.inj hm
      have hkept := hbefore.mono id fun _ hasked ↦ hasked.kept (a := .setBrightness b) nofun
      have hset : Held P (Powered s (.setBrightness b)) (Requested (tr ++ [.setBrightness b]))
          { s.panel with globalLedBrightness := b } :=
        ⟨hkept.device, hkept.power, hkept.message, hkept.record⟩
      exact .inr ((hset.setIndicatorsBrightness hdark b).powerOn hdark hlit hpower .all nofun)
    | setBlink blinkInfo =>
      obtain rfl := Option.some.inj hm
      have hkept := hbefore.mono id fun _ hasked ↦ hasked.kept (a := .setBlink blinkInfo) nofun
      exact .inr ((setBlink_shows dev this blinkInfo s).held hdark hkept)
    | deinit =>
      obtain rfl := Option.some.inj hm
      have hkept := hbefore.mono id fun _ hasked ↦ hasked.kept (a := .deinit) nofun
      exact .inr ⟨hkept.device, hkept.power, hkept.message, hkept.record⟩
    | start =>
      obtain rfl := Option.some.inj hm
      have hkept := hbefore.mono id fun _ hasked ↦ hasked.kept (a := .start) nofun
      exact .inr (hkept.startIndicators hdark hlit hpower)
    | stop =>
      obtain rfl := Option.some.inj hm
      exact .inr (hbefore.mono id fun _ hasked ↦ hasked.kept (a := .stop) nofun)
    | getBrightness =>
      obtain rfl := Option.some.inj hm
      have hkept := hbefore.mono id fun _ hasked ↦ hasked.kept (a := .getBrightness) nofun
      exact .inr (hkept.readBrightness hdark)
    | setLED parameters =>
      obtain rfl := Option.some.inj hm
      have hkept := hbefore.mono id fun _ hasked ↦ hasked.kept (a := .setLED parameters) nofun
      exact .inr (hkept.setIndicator hdark parameters)

/-- Over a run, a property of the device that is lost to nothing but a light may
be lost only to one that was asked for. -/
theorem run_held (hdark : Dark dev P)
    (hlit : ∀ pre a post u, tr = pre ++ a :: post → Run (step dev) (.init device) pre u →
      Powered u a → ∀ name, Requested (pre ++ [a]) name →
        ∀ d, P d → P (dev.setState name true d).2)
    (hrun : Run (step dev) (.init device) tr s) (hP : P device) :
    Held P True (Requested tr) s.panel := by
  induction hrun with
  | nil => exact ⟨hP, fun _ ↦ trivial, nofun, nofun⟩
  | @snoc tr s s' a hrun hs ih =>
    have hheld := ih fun pre b post u he ↦ hlit pre b (post ++ [a]) u (by simp [he])
    exact step_held hdark (hlit tr a [] s rfl hrun) hs hheld

end Runs

section Recorded

variable {s : State (D × List String)} {tr : List Action} {device : D}

def alongside (f : D → α × D) (d : D × List String) : α × D × List String :=
  ((f d.1).1, (f d.1).2, d.2)

/-- The device with a record of the lights that it was told to switch on. -/
def Device.recorded (dev : Device D) : Device (D × List String) where
  getIndicators := alongside dev.getIndicators
  getInstance name := alongside (dev.getInstance name)
  getColor name := alongside (dev.getColor name)
  setState name bState d :=
    let (result, device, on) := alongside (dev.setState name bState) d
    (result, device, if bState then on ++ [name] else on)
  setColor name color persist := alongside (dev.setColor name color persist)
  getBrightness name persist := alongside (dev.getBrightness name persist)
  setBrightness name brightness persist := alongside (dev.setBrightness name brightness persist)

def messageAsked : List Action :=
  [.instance_ 1 false .stb, .setPowerStatus true, .powerOnLed .message]

def afterMessageAsked : State (Lamps × List String) :=
  let dev := (lampDevice recordIsFaulty).recorded
  (powerOnLed dev 1 .message (setPowerStatus true
    (instance_ dev 1 false .stb (.init (twoLamps, []))))).2

example : (powerOnAllLed (lampDevice recordIsFaulty).recorded 1
    afterMessageAsked).2.panel.device.2 = ["Message", "Message", "Power"] := rfl

end Recorded

end Peripherals.FrontPanel
