import Peripherals.FrontPanel.Hardware
import Peripherals.FrontPanel.Playback

namespace Peripherals.FrontPanel

open Function Thunder Attempt Execution

variable {D C : Type} {dev : Device D} {p : Panel D} {s s' : State D} {name ledIndicator : String}
  {fields : JsonObject} {color : Option Color} {persist : Bool}

def ledColor (parameters : JsonObject) : Option Color :=
  if parameters.hasLabel "color" ∧ (parameters.get "color").string ≠ "" then
    some (.named (parameters.get "color").string)
  else if parameters.hasLabel "red" then some (.value (rgb parameters))
  else none

def blinkColor (frontPanelBlinkHash : JsonObject) : Option Color :=
  if frontPanelBlinkHash.hasLabel "color" then
    some (.named (frontPanelBlinkHash.get "color").string)
  else if frontPanelBlinkHash.hasLabel "red" then some (.value (rgb frontPanelBlinkHash))
  else none

def applyColor (dev : Device D) (ledIndicator : String) (persist : Bool) :
    Option Color → Try D Unit
  | some (.named colorName) => do
    call (dev.getInstance ledIndicator)
    call (dev.getColor colorName)
    call (dev.setColor ledIndicator (.named colorName) false)
  | some (.value colorValue) =>
    onIndicator dev ledIndicator (dev.setColor ledIndicator (.value colorValue) persist)
  | none => pure ()

theorem setIndicator_eq (parameters : JsonObject) (p : Panel D) :
    setIndicator dev parameters p =
      (((applyBrightness dev (svc2iarm (parameters.get "ledIndicator").string)
        (brightnessOf parameters)).run ((applyColor dev
          (svc2iarm (parameters.get "ledIndicator").string) true
            (ledColor parameters)).run p).2).map Option.isSome id) := by
  unfold setIndicator ledColor
  split
  · rfl
  · split <;> rfl

theorem showFrame_eq (ledIndicator : String) (fields : JsonObject) (p : Panel D) :
    showFrame dev (blinkFrame ledIndicator fields) p =
      ((applyBrightness dev ledIndicator (brightnessOf fields)).run
        ((applyColor dev ledIndicator false (blinkColor fields)).run p).2).2 := by
  unfold showFrame blinkFrame blinkColor
  split
  · rfl
  · split <;> rfl

/-- What is seen of an indicator, and the brightness that is stored for it. -/
structure Light (C : Type) where
  colour : C
  brightness : Int
  saved : Int

/-- The lights of a device: lookups of what it does not know throw, brightness
out of its range is refused, and each call changes what it is meant to. -/
structure Lighting (dev : Device D) (light : D → String → Light C) (known : String → Bool)
    (ofValue : UInt32 → C) (palette : String → Option C) (accepted : Int → Bool) : Prop where
  getInstance : ∀ name d, (dev.getInstance name d).1 = (if known name then some () else none) ∧
    light (dev.getInstance name d).2 = light d
  getColor : ∀ colorName d, (dev.getColor colorName d).1 = (palette colorName).map (fun _ ↦ ()) ∧
    light (dev.getColor colorName d).2 = light d
  setValue : ∀ name v persist d, light (dev.setColor name (.value v) persist d).2 =
    update (light d) name { light d name with colour := ofValue v }
  setNamed : ∀ name colorName c persist d, palette colorName = some c →
    light (dev.setColor name (.named colorName) persist d).2 =
      update (light d) name { light d name with colour := c }
  getBrightness : ∀ name d, (dev.getBrightness name true d).1 = some (light d name).saved ∧
    light (dev.getBrightness name true d).2 = light d
  setBrightness : ∀ name b d, light (dev.setBrightness name b false d).2 =
    if accepted b then update (light d) name { light d name with brightness := b } else light d

variable {light : D → String → Light C} {known : String → Bool} {ofValue : UInt32 → C}
  {palette : String → Option C} {accepted : Int → Bool}

def Light.paint (ofValue : UInt32 → C) (palette : String → Option C) (l : Light C) :
    Option Color → Light C
  | some (.named colorName) => { l with colour := (palette colorName).getD l.colour }
  | some (.value v) => { l with colour := ofValue v }
  | none => l

def Light.dim (accepted : Int → Bool) (l : Light C) (b : Int) : Light C :=
  let b := if b = -1 then l.saved else b
  if accepted b then { l with brightness := b } else l

theorem wp_call_iff {α : Type} {f : D → Option α × D} {Q : α → Panel D → Prop}
    {E : Panel D → Prop} : wp (call f) Q E p ↔ match (f p.device).1 with
      | some a => Q a { p with device := (f p.device).2 }
      | none => E { p with device := (f p.device).2 } := by
  rw [wp_call]
  rcases f p.device with ⟨_ | a, d⟩ <;> rfl

theorem Lighting.wp_getInstance {α : Type} (h : Lighting dev light known ofValue palette accepted)
    {Q : α → Panel D → Prop} {E : Panel D → Prop} {x : Try D α}
    (hknown : known name = true → ∀ d, light d = light p.device →
      wp x Q E { p with device := d })
    (hunknown : known name = false → ∀ d, light d = light p.device → E { p with device := d }) :
    wp (do call (dev.getInstance name); x) Q E p := by
  obtain ⟨hresult, hlight⟩ := h.getInstance name p.device
  rw [wp_bind, wp_call_iff, hresult]
  cases hk : known name with
  | true => exact hknown hk _ hlight
  | false => exact hunknown hk _ hlight

theorem Lighting.applyColor_light (h : Lighting dev light known ofValue palette accepted)
    (ledIndicator : String) (persist : Bool) (color : Option Color) (p : Panel D) :
    light ((applyColor dev ledIndicator persist color).run p).2.device ledIndicator =
      if known ledIndicator then (light p.device ledIndicator).paint ofValue palette color
      else light p.device ledIndicator := by
  apply wp_state (P := fun p' ↦ light p'.device ledIndicator =
    if known ledIndicator then (light p.device ledIndicator).paint ofValue palette color
    else light p.device ledIndicator)
  cases color with
  | none => simp [applyColor, Light.paint]
  | some color =>
    cases color with
    | value v =>
      apply h.wp_getInstance
      · intro hk d hd
        apply wp_call_of_frame
        simp [h.setValue, hk, hd, Light.paint]
      · intro hk d hd
        simp [hk, hd]
    | named colorName =>
      apply h.wp_getInstance
      · intro hk d hd
        obtain ⟨hresult, hlight⟩ := h.getColor colorName d
        rw [wp_bind, wp_call_iff]
        dsimp only
        rw [hresult]
        cases hc : palette colorName with
        | none => simp [hlight, hd, hk, hc, Light.paint]
        | some c =>
          apply wp_call_of_frame
          simp [h.setNamed _ _ _ _ _ hc, hlight, hd, hk, hc, Light.paint]
      · intro hk d hd
        simp [hk, hd]

theorem Lighting.applyBrightness_light (h : Lighting dev light known ofValue palette accepted)
    (ledIndicator : String) (brightness : Int) (p : Panel D) :
    light ((applyBrightness dev ledIndicator brightness).run p).2.device ledIndicator =
      if known ledIndicator then (light p.device ledIndicator).dim accepted brightness
      else light p.device ledIndicator := by
  apply wp_state (P := fun p' ↦ light p'.device ledIndicator =
    if known ledIndicator then (light p.device ledIndicator).dim accepted brightness
    else light p.device ledIndicator)
  have hset {d : D} (hd : light d = light p.device) {b : Int}
      (hb : b = if brightness = -1 then (light p.device ledIndicator).saved else brightness) :
      wp (onIndicator dev ledIndicator (dev.setBrightness ledIndicator b false))
        (fun _ p' ↦ light p'.device ledIndicator =
          if known ledIndicator then (light p.device ledIndicator).dim accepted brightness
          else light p.device ledIndicator)
        (fun p' ↦ light p'.device ledIndicator =
          if known ledIndicator then (light p.device ledIndicator).dim accepted brightness
          else light p.device ledIndicator) { p with device := d } := by
    apply h.wp_getInstance
    · intro hk d' hd'
      apply wp_call_of_frame
      simp only [h.setBrightness, hd', hd, hk, if_true, Light.dim, ← hb]
      split <;> simp
    · intro hk d' hd'
      simp [hk, hd', hd]
  simp only [applyBrightness]
  split
  next hread =>
    rw [wp_bind]
    apply h.wp_getInstance
    · intro hk d hd
      obtain ⟨hresult, hlight⟩ := h.getBrightness ledIndicator d
      rw [wp_call_iff]
      dsimp only
      rw [hresult]
      exact hset (hlight.trans hd) (by rw [if_pos hread, hd])
    · intro hk d hd
      simp [hk, hd]
  next hgiven => exact hset rfl (if_neg hgiven).symm

theorem Light.dim_colour (l : Light C) (b : Int) : (l.dim accepted b).colour = l.colour := by
  unfold Light.dim
  dsimp only
  split_ifs <;> rfl

theorem Light.dim_paint_brightness (l : Light C) (color : Option Color) (b : Int) :
    ((l.paint ofValue palette color).dim accepted b).brightness =
      (l.dim accepted b).brightness := by
  have hsaved : (l.paint ofValue palette color).saved = l.saved := by
    rcases color with _ | _ | _ <;> rfl
  have hbrightness : (l.paint ofValue palette color).brightness = l.brightness := by
    rcases color with _ | _ | _ <;> rfl
  unfold Light.dim
  rw [hsaved]
  dsimp only
  split_ifs
  · rfl
  · exact hbrightness
  · rfl
  · exact hbrightness

/-- The one difference between the two readings of a colour is the empty name. -/
theorem paint_agree_iff (fields : JsonObject) (l : Light C) :
    (l.paint ofValue palette (ledColor fields)).colour =
        (l.paint ofValue palette (blinkColor fields)).colour ↔
      (fields.hasLabel "color" = true → (fields.get "color").string = "" →
        (if fields.hasLabel "red" then ofValue (rgb fields) else l.colour) =
          (palette "").getD l.colour) := by
  unfold ledColor blinkColor
  by_cases hcolor : fields.hasLabel "color" = true
  · by_cases hempty : (fields.get "color").string = ""
    · by_cases hred : fields.hasLabel "red" = true
      · simp [hcolor, hempty, hred, Light.paint]
      · simp [hcolor, hempty, hred, Light.paint]
    · simp [hcolor, hempty]
  · simp [hcolor]

/-- The frames that come on the record between two states are those that the
indicators show. -/
def Shows (dev : Device D) (s s' : State D) : Prop :=
  ∃ frames, s'.blink.applied = s.blink.applied ++ frames ∧
    s'.panel = frames.foldl (fun p frame ↦ showFrame dev frame p) s.panel

theorem Shows.refl {b : Blink} (h : b.applied = s.blink.applied) : Shows dev s ⟨s.panel, b⟩ :=
  ⟨[], by simp [h], rfl⟩

theorem Shows.trans {t : State D} (h : Shows dev s s') (h' : Shows dev s' t) : Shows dev s t := by
  obtain ⟨frames, happlied, hpanel⟩ := h
  obtain ⟨frames', happlied', hpanel'⟩ := h'
  refine ⟨frames ++ frames', ?_, ?_⟩
  · rw [happlied', happlied, List.append_assoc]
  · rw [hpanel', hpanel, List.foldl_append]

variable {this : InstanceId} {a : Action}

theorem playCurrent_shows (dev : Device D) (this : InstanceId) (s : State D) :
    Shows dev s (playCurrent dev this s) := by
  unfold playCurrent applyCurrent
  cases at? s.blink.m_blinkList s.blink.m_currentBlinkListIndex with
  | none => exact .refl rfl
  | some blinkInfo =>
    refine ⟨[blinkInfo], ?_, rfl⟩
    simp only [scheduleIfBlinking]
    split <;> rfl

theorem onBlinkTimer_shows (dev : Device D) (this : InstanceId) (s : State D) :
    Shows dev s (onBlinkTimer dev this s) := by
  have happlied := (advance_lists s.blink).2
  unfold onBlinkTimer
  rcases hadv : advance s.blink with ⟨_ | _, b⟩
  · rw [hadv] at happlied
    exact .refl happlied
  · rw [hadv] at happlied
    have hstart : Shows dev s { s with blink := b } := .refl happlied
    exact hstart.trans (playCurrent_shows dev this { s with blink := b })

theorem fire_shows {j : ℕ} (hs : step dev s (.fire j) = some s') : Shows dev s s' := by
  obtain ⟨job, -, rfl⟩ := step_fire hs
  unfold timed
  split
  · exact onBlinkTimer_shows dev job.m_frontPanel
      { s with blink := { s.blink with blinkTimer := s.blink.blinkTimer.eraseIdx j } }
  · exact .refl rfl

theorem setBlink_shows (dev : Device D) (this : InstanceId) (blinkInfo : JsonObject)
    (s : State D) : Shows dev s (setBlink dev this blinkInfo s) := by
  unfold setBlink startBlinkTimer
  dsimp only
  split
  · have hstart (b : Blink) (h : b.applied = s.blink.applied) :
        Shows dev s (playCurrent dev this { s with blink := b }) :=
      (Shows.refl h).trans (playCurrent_shows dev this { s with blink := b })
    apply hstart
    rfl
  · exact .refl rfl

theorem fires_show {fires : List Action} (hfires : ∀ a ∈ fires, ∃ j, a = .fire j)
    (h : Run (step dev) s fires s') : Shows dev s s' := by
  induction h with
  | nil => exact .refl rfl
  | snoc _ hs ih =>
    obtain ⟨hbefore, ha⟩ := List.forall_mem_append.mp hfires
    obtain ⟨j, rfl⟩ := ha _ (List.mem_singleton_self _)
    exact (ih hbefore).trans (fire_shows hs)

def ledRequest (ledIndicator : String) (fields : JsonObject) : JsonObject :=
  ("ledIndicator", .ofString ledIndicator) :: fields

def blinkRequest (ledIndicator : String) (duration : Variant) (fields : JsonObject) : JsonObject :=
  [("ledIndicator", .ofString ledIndicator), ("iterations", .ofNat 0),
    ("pattern", .ofArray [.ofObject (("duration", duration) :: fields)])]

section Labels

variable {o : JsonObject} {label other : String} {v : Variant}

theorem get_cons_of_ne (h : other ≠ label) :
    JsonObject.get ((other, v) :: o) label = o.get label := by
  simp [JsonObject.get, h]

theorem hasLabel_cons_of_ne (h : other ≠ label) :
    JsonObject.hasLabel ((other, v) :: o) label = o.hasLabel label := by
  simp [JsonObject.hasLabel, h]

theorem getNumber_cons_of_ne (h : other ≠ label) :
    getNumberParameterObject ((other, v) :: o) label = getNumberParameterObject o label := by
  simp only [getNumberParameterObject, get_cons_of_ne h]

/-- A label that says nothing of the light. -/
theorem light_cons (hcolor : other ≠ "color") (hred : other ≠ "red") (hgreen : other ≠ "green")
    (hblue : other ≠ "blue") (hbrightness : other ≠ "brightness") :
    ledColor ((other, v) :: o) = ledColor o ∧ blinkColor ((other, v) :: o) = blinkColor o ∧
      brightnessOf ((other, v) :: o) = brightnessOf o := by
  simp only [ledColor, blinkColor, brightnessOf, rgb, get_cons_of_ne hcolor,
    hasLabel_cons_of_ne hcolor, hasLabel_cons_of_ne hred, hasLabel_cons_of_ne hbrightness,
    getNumber_cons_of_ne hred, getNumber_cons_of_ne hgreen, getNumber_cons_of_ne hblue,
    getNumber_cons_of_ne hbrightness, and_self]

end Labels

theorem frames_blinkRequest (ledIndicator : String) (duration : Variant) (fields : JsonObject) :
    frames (blinkRequest ledIndicator duration fields) =
      [blinkFrame (svc2iarm ledIndicator) (("duration", duration) :: fields)] := rfl

theorem iterations_blinkRequest (ledIndicator : String) (duration : Variant)
    (fields : JsonObject) : iterations (blinkRequest ledIndicator duration fields) = 0 := by
  have hnumber : getNumberParameterObject (blinkRequest ledIndicator duration fields)
      "iterations" = 0 := rfl
  rw [iterations, hnumber]
  decide

theorem Lighting.setIndicator_light (h : Lighting dev light known ofValue palette accepted)
    (ledIndicator : String) (fields : JsonObject) (p : Panel D) :
    light (setIndicator dev (ledRequest ledIndicator fields) p).2.device (svc2iarm ledIndicator) =
      if known (svc2iarm ledIndicator) then
        ((light p.device (svc2iarm ledIndicator)).paint ofValue palette (ledColor fields)).dim
          accepted (brightnessOf fields)
      else light p.device (svc2iarm ledIndicator) := by
  obtain ⟨hcolor, -, hbrightness⟩ : ledColor (ledRequest ledIndicator fields) = ledColor fields ∧
      _ ∧ brightnessOf (ledRequest ledIndicator fields) = brightnessOf fields :=
    light_cons (by decide) (by decide) (by decide) (by decide) (by decide)
  have hname : (JsonObject.get (ledRequest ledIndicator fields) "ledIndicator").string =
      ledIndicator := rfl
  rw [setIndicator_eq, hname, hcolor, hbrightness]
  have hdim := h.applyBrightness_light (svc2iarm ledIndicator) (brightnessOf fields)
    ((applyColor dev (svc2iarm ledIndicator) true (ledColor fields)).run p).2
  rw [h.applyColor_light] at hdim
  refine hdim.trans ?_
  split <;> rfl

theorem Lighting.showFrame_light (h : Lighting dev light known ofValue palette accepted)
    (ledIndicator : String) (duration : Variant) (fields : JsonObject) (p : Panel D) :
    light (showFrame dev (blinkFrame ledIndicator (("duration", duration) :: fields)) p).device
        ledIndicator =
      if known ledIndicator then
        ((light p.device ledIndicator).paint ofValue palette (blinkColor fields)).dim
          accepted (brightnessOf fields)
      else light p.device ledIndicator := by
  obtain ⟨-, hcolor, hbrightness⟩ : _ ∧
      blinkColor (("duration", duration) :: fields) = blinkColor fields ∧
        brightnessOf (("duration", duration) :: fields) = brightnessOf fields :=
    light_cons (by decide) (by decide) (by decide) (by decide) (by decide)
  rw [showFrame_eq, hcolor, hbrightness, h.applyBrightness_light, h.applyColor_light]
  split <;> rfl

/-- A blink of one frame shows this frame once, from its start on. -/
theorem blinkRequest_panel {device : D} {tr fires : List Action} {u v w : State D}
    {duration : Variant} (hu : Run (step dev) (.init device) tr u)
    (hset : step dev u (.setBlink (blinkRequest ledIndicator duration fields)) = some v)
    (hfires : ∀ a ∈ fires, ∃ j, a = .fire j) (hr : Run (step dev) v fires w) :
    w.panel = showFrame dev
      (blinkFrame (svc2iarm ledIndicator) (("duration", duration) :: fields)) u.panel := by
  obtain ⟨this, hthis, rfl⟩ := step_setBlink hset
  have hshown := setBlink_shows dev this (blinkRequest ledIndicator duration fields) u
  have hne : frames (blinkRequest ledIndicator duration fields) ≠ [] := List.cons_ne_nil _ _
  have hstart := setBlink_playing dev (run_valid hu) hthis hne
  rw [frames_blinkRequest, iterations_blinkRequest] at hstart
  obtain ⟨list, happlied, hpanel⟩ := hshown.trans (fires_show hfires hr)
  have hlist : list = [blinkFrame (svc2iarm ledIndicator) (("duration", duration) :: fields)] := by
    suffices hsame : u.blink.applied ++ list = u.blink.applied ++
        [blinkFrame (svc2iarm ledIndicator) (("duration", duration) :: fields)] from
      List.append_cancel_left hsame
    rw [← happlied]
    rcases run_playing hstart (by simp) (by decide) hfires hr with hplaying | hover
    · have hlast := (hplaying.rounds (Int.le_refl 0)).2
      obtain hzero : fires.length = 0 := by
        simp only [total, List.length_singleton] at hlast
        omega
      rw [hplaying.applied, hzero]
      rfl
    · exact hover.applied
  rw [hpanel, hlist]
  rfl

/-- After a `setLED` and after a blink of one frame with the same fields the
indicator has the same colour and brightness, if and only if the fields do not
name the empty colour, or this name stands for the colour that `setLED` gives. -/
theorem led_blink_agree_iff (h : Lighting dev light known ofValue palette accepted) {device : D}
    {tr fires : List Action} {t u v w : State D} {duration : Variant}
    (hu : Run (step dev) (.init device) tr u)
    (hled : step dev u (.setLED (ledRequest ledIndicator fields)) = some t)
    (hset : step dev u (.setBlink (blinkRequest ledIndicator duration fields)) = some v)
    (hfires : ∀ a ∈ fires, ∃ j, a = .fire j) (hr : Run (step dev) v fires w) :
    ((light t.panel.device (svc2iarm ledIndicator)).colour =
        (light w.panel.device (svc2iarm ledIndicator)).colour ∧
      (light t.panel.device (svc2iarm ledIndicator)).brightness =
        (light w.panel.device (svc2iarm ledIndicator)).brightness) ↔
      (known (svc2iarm ledIndicator) = true → fields.hasLabel "color" = true →
        (fields.get "color").string = "" →
          (if fields.hasLabel "red" then ofValue (rgb fields)
            else (light u.panel.device (svc2iarm ledIndicator)).colour) =
              (palette "").getD (light u.panel.device (svc2iarm ledIndicator)).colour) := by
  have ht : t.panel = (setIndicator dev (ledRequest ledIndicator fields) u.panel).2 := by
    rcases step_method hled with ⟨_, _, _, hinstance⟩ | ⟨_, hfire⟩ | ⟨this, -, hm⟩
    · cases hinstance
    · cases hfire
    · obtain rfl := Option.some.inj hm
      rfl
  rw [ht, blinkRequest_panel hu hset hfires hr, h.setIndicator_light, h.showFrame_light]
  cases hknown : known (svc2iarm ledIndicator) with
  | false => simp
  | true =>
    simp only [if_true, Light.dim_colour, Light.dim_paint_brightness, and_true, forall_const]
    exact paint_agree_iff fields _

structure Bulbs where
  light : String → Light UInt32

def Bulbs.paint (d : Bulbs) (name : String) (v : UInt32) : Bulbs :=
  ⟨update d.light name { d.light name with colour := v }⟩

def bulbNames (name : String) : Bool := name = "Power" ∨ name = "Message"

def bulbPalette (colorName : String) : Option UInt32 :=
  if colorName = "red" then some 0xff0000 else if colorName = "blue" then some 0xff else none

def bulbDevice : Device Bulbs where
  getIndicators d := (some ["Power", "Message"], d)
  getInstance name d := (if bulbNames name then some () else none, d)
  getColor colorName d := ((bulbPalette colorName).map fun _ ↦ (), d)
  setState _ _ d := (some (), d)
  setColor name color _ d := match color with
    | .value v => (some (), d.paint name v)
    | .named colorName => match bulbPalette colorName with
      | some v => (some (), d.paint name v)
      | none => (none, d)
  getBrightness name _ d := (some (d.light name).saved, d)
  setBrightness name brightness _ d :=
    if 0 ≤ brightness ∧ brightness ≤ 100 then
      (some (), ⟨update d.light name { d.light name with brightness := brightness }⟩)
    else (none, d)

theorem bulbDevice_lighting : Lighting bulbDevice Bulbs.light bulbNames (fun v ↦ v) bulbPalette
    (fun b ↦ 0 ≤ b ∧ b ≤ 100) where
  getInstance _ _ := ⟨rfl, rfl⟩
  getColor _ _ := ⟨rfl, rfl⟩
  setValue _ _ _ _ := rfl
  setNamed name colorName c persist d h := by
    simp only [bulbDevice, h]
    rfl
  getBrightness _ _ := ⟨rfl, rfl⟩
  setBrightness name b d := by
    simp only [bulbDevice, decide_eq_true_eq]
    split <;> rfl

def bulbs₀ : Bulbs := ⟨fun _ ↦ ⟨0, 50, 50⟩⟩

def bulbs : State Bulbs := instance_ bulbDevice 1 true .stb (.init bulbs₀)

def afterLED (fields : JsonObject) : State Bulbs :=
  (setLED bulbDevice 1 (ledRequest "power_led" fields) bulbs).2

def afterBlink (fields : JsonObject) : State Bulbs :=
  setBlink bulbDevice 1 (blinkRequest "power_led" (.ofNat 500) fields) bulbs

theorem bulbs_instance : bulbs.blink.s_instance = some 1 := rfl

theorem bulbs_led (fields : JsonObject) : step bulbDevice bulbs
    (.setLED (ledRequest "power_led" fields)) = some (afterLED fields) := by
  simp only [step, bulbs_instance, method, afterLED]

theorem bulbs_blink (fields : JsonObject) : step bulbDevice bulbs
    (.setBlink (blinkRequest "power_led" (.ofNat 500) fields)) = some (afterBlink fields) := by
  simp only [step, bulbs_instance, method, afterBlink]

def blue : JsonObject := [("color", .ofString "blue"), ("brightness", .ofNat 30)]

theorem led_blink_agree_iff_blue :
    (((afterLED blue).panel.device.light (svc2iarm "power_led")).colour =
        ((afterBlink blue).panel.device.light (svc2iarm "power_led")).colour ∧
      ((afterLED blue).panel.device.light (svc2iarm "power_led")).brightness =
        ((afterBlink blue).panel.device.light (svc2iarm "power_led")).brightness) ↔
      (bulbNames (svc2iarm "power_led") = true → blue.hasLabel "color" = true →
        (blue.get "color").string = "" →
          (if blue.hasLabel "red" then rgb blue
            else (bulbs.panel.device.light (svc2iarm "power_led")).colour) =
              (bulbPalette "").getD (bulbs.panel.device.light (svc2iarm "power_led")).colour) :=
  led_blink_agree_iff bulbDevice_lighting
    (.one rfl : Run (step bulbDevice) (.init bulbs₀) [.instance_ 1 true .stb] bulbs)
    (bulbs_led blue) (bulbs_blink blue) (by simp) .nil

/-- With an empty colour name `setLED` takes red, green and blue, and `setBlink` does not. -/
theorem empty_name_disagrees :
    ¬ ∀ (device : Bulbs) (tr fires : List Action) (u t v w : State Bulbs)
      (ledIndicator : String) (duration : Variant) (fields : JsonObject),
      Run (step bulbDevice) (.init device) tr u →
      step bulbDevice u (.setLED (ledRequest ledIndicator fields)) = some t →
      step bulbDevice u (.setBlink (blinkRequest ledIndicator duration fields)) = some v →
      (∀ a ∈ fires, ∃ j, a = .fire j) → Run (step bulbDevice) v fires w →
      (t.panel.device.light (svc2iarm ledIndicator)).colour =
          (w.panel.device.light (svc2iarm ledIndicator)).colour ∧
        (t.panel.device.light (svc2iarm ledIndicator)).brightness =
          (w.panel.device.light (svc2iarm ledIndicator)).brightness := by
  intro h
  let fields : JsonObject :=
    [("color", .ofString ""), ("red", .ofNat 1), ("green", .ofNat 0), ("blue", .ofNat 0)]
  have hagree := h bulbs₀ [.instance_ 1 true .stb] [] bulbs (afterLED fields)
    (afterBlink fields) (afterBlink fields) "power_led" (.ofNat 500) fields (.one rfl)
    (bulbs_led fields) (bulbs_blink fields) (by simp) .nil
  exact absurd hagree.1 (by decide +kernel)

end Peripherals.FrontPanel
