import Mathlib.Logic.Function.Basic
import Peripherals.Attempt
import Peripherals.Execution
import Peripherals.FrontPanel.CFrontPanel

namespace Peripherals.FrontPanel

open Function Attempt Execution

variable {D V α : Type} {dev : Device D} {read : D → String → V}
  {write : String → V → D → Option Unit × D} {faulty : String → Bool} {p : Panel D}
  {name : String} {v : V} {Q : Unit → Panel D → Prop} {E : Panel D → Prop}

/-- What is seen at each indicator, and the call that sets it. The device calls
on the faulty indicators throw, at the lookup or later. -/
structure Attribute (dev : Device D) (read : D → String → V)
    (write : String → V → D → Option Unit × D) (faulty : String → Bool) : Prop where
  lookup : ∀ name d, read (dev.getInstance name d).2 = read d
  found : ∀ name d, faulty name = false → (dev.getInstance name d).1 = some ()
  written : ∀ name v d, faulty name = false → (write name v d).1 = some () ∧
    read (write name v d).2 = update (read d) name v
  kept : ∀ name v d other, other ≠ name → read (write name v d).2 other = read d other
  throws : ∀ name v d, faulty name = true → (dev.getInstance name d).1 = none ∨
    (write name v (dev.getInstance name d).2).1 = none

theorem wp_call {f : D → Option α × D} {Q : α → Panel D → Prop} :
    wp (call f) Q E p ↔ match f p.device with
      | (some a, d) => Q a { p with device := d }
      | (none, d) => E { p with device := d } := by
  have hrun : (call f).run p = ((f p.device).1, { p with device := (f p.device).2 }) := rfl
  unfold wp
  rw [hrun]
  rcases f p.device with ⟨_ | a, d⟩ <;> rfl

/-- Whatever a call does, it leaves what it cannot reach. -/
theorem wp_call_of_frame {f : D → Option α × D} {P : Panel D → Prop}
    (h : P { p with device := (f p.device).2 }) : wp (call f) (fun _ p' ↦ P p') P p := by
  rw [wp_call]
  rcases hf : f p.device with ⟨_ | a, d⟩ <;> simpa [hf] using h

theorem Attribute.wp_write (h : Attribute dev read write faulty) (hname : faulty name = false)
    (hQ : ∀ d, read d = update (read p.device) name v → Q () { p with device := d }) :
    wp (onIndicator dev name (write name v)) Q E p := by
  have hfound := h.found name p.device hname
  have hlookup := h.lookup name p.device
  rw [onIndicator, wp_bind, wp_call]
  rcases hi : dev.getInstance name p.device with ⟨_ | _, d⟩
  · simp [hi] at hfound
  · rw [hi] at hlookup
    obtain ⟨hwritten, hread⟩ := h.written name v d hname
    simp only [wp_call]
    rcases hw : write name v d with ⟨_ | _, d'⟩
    · simp [hw] at hwritten
    · rw [hw, hlookup] at hread
      exact hQ d' hread

theorem Attribute.wp_write_faulty (h : Attribute dev read write faulty)
    (hname : faulty name = true)
    (hE : ∀ d, (∀ other, other ≠ name → read d other = read p.device other) →
      E { p with device := d }) : wp (onIndicator dev name (write name v)) Q E p := by
  have hthrows := h.throws name v p.device hname
  have hlookup := h.lookup name p.device
  rw [onIndicator, wp_bind, wp_call]
  rcases hi : dev.getInstance name p.device with ⟨_ | _, d⟩
  · rw [hi] at hlookup
    exact hE d fun other _ ↦ congrFun hlookup other
  · rw [hi] at hthrows hlookup
    have hkept := h.kept name v d
    simp only [wp_call]
    rcases hw : write name v d with ⟨_ | _, d'⟩
    · rw [hw, hlookup] at hkept
      exact hE d' hkept
    · simp [hw] at hthrows

/-- A loop that sets an attribute of the listed indicators sets it on those
before the first faulty one, and on no other. -/
def Written (read : D → String → V) (faulty : String → Bool) (names : List String) (v : V)
    (p p' : Panel D) : Prop :=
  p' = { p with device := p'.device } ∧ ∀ name, faulty name = false →
    read p'.device name =
      if name ∈ names.takeWhile (fun name ↦ !faulty name) then v else read p.device name

theorem Attribute.wp_writeAll (h : Attribute dev read write faulty) (names : List String)
    (v : V) (p : Panel D) :
    wp (forIn names PUnit.unit fun name _ ↦ do
        onIndicator dev name (write name v)
        pure (ForInStep.yield PUnit.unit))
      (fun _ p' ↦ Written read faulty names v p p') (Written read faulty names v p) p := by
  refine wp_mono ?_ (fun _ hE ↦ hE) (wp_forIn
    (I := fun pre p' ↦ p' = { p with device := p'.device } ∧
      (∀ name ∈ pre, faulty name = false) ∧
        ∀ name, read p'.device name = if name ∈ pre then v else read p.device name)
    ⟨rfl, by simp, by simp⟩ ?_)
  · intro _ p' hI
    obtain ⟨hp', hfault, hread⟩ := hI
    have hwhole : names.takeWhile (fun name ↦ !faulty name) = names :=
      List.takeWhile_eq_self_iff.mpr fun name hn ↦ by simp [hfault name hn]
    refine ⟨hp', ?_⟩
    intro name _
    rw [hwhole]
    exact hread name
  · intro pre name post p' hnames hI
    obtain ⟨hp', hfault, hread⟩ := hI
    simp only [wp_bind, wp_pure, true_and]
    cases hname : faulty name with
    | false =>
      apply h.wp_write hname
      intro d hd
      refine ⟨?_, ?_, ?_⟩
      · rw [hp']
      · simpa [or_imp, forall_and, hname] using hfault
      · intro other
        rw [hd]
        by_cases ho : other = name
        · simp [ho]
        · simp [ho, hread other]
    | true =>
      apply h.wp_write_faulty hname
      intro d hd
      have htaken : names.takeWhile (fun name ↦ !faulty name) = pre := by
        rw [hnames, List.takeWhile_append_of_pos (by simpa using hfault)]
        simp [hname]
      refine ⟨by rw [hp'], ?_⟩
      intro other hother
      have hne : other ≠ name := by
        intro he
        rw [he, hname] at hother
        cases hother
      rw [htaken, ← hread other]
      exact hd other hne

theorem wp_state {x : Try D α} {P : Panel D → Prop} (h : wp x (fun _ p' ↦ P p') P p) :
    P (x.run p).2 := wp_final h

variable {lit : D → String → Bool} {brightness : D → String → Int} {this : InstanceId}
  {s : State D}

theorem powerOffAll_written (h : Attribute dev lit dev.setState faulty) (p : Panel D) :
    Written lit faulty p.fpIndicators false p ((powerOffIndicator dev .all).run p).2 := by
  apply wp_state
  simp only [powerOffIndicator, wp_bind, wp_get, wp_pure]
  exact h.wp_writeAll p.fpIndicators false p

theorem setIndicatorsBrightness_written {b : Int}
    (h : Attribute dev brightness (fun name b ↦ dev.setBrightness name b true) faulty)
    (p : Panel D) : Written brightness faulty p.fpIndicators b p
      ((setIndicatorsBrightness dev b).run p).2 := by
  apply wp_state
  simp only [setIndicatorsBrightness, wp_bind, wp_get, wp_pure]
  exact h.wp_writeAll p.fpIndicators b p

theorem wp_onIndicator_of_frame {f : D → Option α × D} {P : D → Prop}
    (hlookup : ∀ d, P d → P (dev.getInstance name d).2) (hf : ∀ d, P d → P (f d).2)
    (hp : P p.device) :
    wp (onIndicator dev name f) (fun _ p' ↦ P p'.device) (fun p' ↦ P p'.device) p := by
  rw [onIndicator, wp_bind]
  refine wp_mono ?_ (fun _ hE ↦ hE) (wp_call_of_frame (P := fun p' ↦ P p'.device) (hlookup _ hp))
  intro _ p' hp'
  exact wp_call_of_frame (P := fun p' ↦ P p'.device) (hf _ hp')

/-- `powerOnLed` reaches the device by lookups and by `setState` only. -/
theorem powerOn_frame {P : D → Prop} (hlookup : ∀ name d, P d → P (dev.getInstance name d).2)
    (hstate : ∀ name bState d, P d → P (dev.setState name bState d).2)
    (fp_indicator : FrontPanelIndicator) (hp : P p.device) :
    P ((powerOnIndicator dev fp_indicator).run p).2.device := by
  have hon (name : String) {p : Panel D} (hp : P p.device) :
      wp (onIndicator dev name (dev.setState name true)) (fun _ p' ↦ P p'.device)
        (fun p' ↦ P p'.device) p :=
    wp_onIndicator_of_frame (hlookup name) (hstate name true) hp
  apply wp_state (P := fun p' ↦ P p'.device)
  simp only [powerOnIndicator, wp_bind, wp_get]
  split
  · cases fp_indicator with
    | message => exact hon "Message" hp
    | record => exact hon "Record" hp
    | remote => exact hon "Remote" hp
    | rfbypass => exact hon "RfByPass" hp
    | power => exact hon "Power" hp
    | clock => exact hp
    | all =>
      have hpower {p : Panel D} (hp : P p.device) := hon "Power" hp
      have hrecord {p : Panel D} (hp : P p.device) :=
        wp_mono (fun _ _ hp' ↦ hpower hp') (fun _ hE ↦ hE) (hon "Record" hp)
      simp only [wp_bind, wp_get, wp_ite]
      split
      · apply wp_mono _ (fun _ hE ↦ hE) (hon "Message" hp)
        intro _ p' hp'
        split
        · exact hrecord hp'
        · exact hpower hp'
      · split
        · exact hrecord hp
        · exact hpower hp
  · exact hp

theorem written_iff {names : List String} {p' : Panel D} (h : Written read faulty names v p p') :
    (∀ name ∈ names, faulty name = false → read p'.device name = v) ↔
      ∀ name ∈ names, faulty name = false →
        name ∈ names.takeWhile (fun name ↦ !faulty name) ∨ read p.device name = v := by
  obtain ⟨-, hread⟩ := h
  refine ⟨?_, ?_⟩
  · intro hall name hn hfault
    have hv := hall name hn hfault
    rw [hread name hfault] at hv
    split at hv
    · left
      assumption
    · exact .inr hv
  · intro hall name hn hfault
    rw [hread name hfault]
    split
    · rfl
    next hnot => exact (hall name hn hfault).resolve_left hnot

/-- The indicators that do not throw are off after `powerOffLed` of all, and have
the brightness after `setBrightness`, if and only if they are listed before the
first faulty one or were so before the call. -/
theorem faulty_shields_iff (hlit : Attribute dev lit dev.setState faulty)
    (hbright : Attribute dev brightness (fun name b ↦ dev.setBrightness name b true) faulty)
    (hstate : ∀ name bState d, brightness (dev.setState name bState d).2 = brightness d)
    (this : InstanceId) (s : State D) :
    ((∀ name ∈ s.panel.fpIndicators, faulty name = false →
        lit (powerOffLed dev this .all s).2.panel.device name = false) ↔
      ∀ name ∈ s.panel.fpIndicators, faulty name = false →
        name ∈ s.panel.fpIndicators.takeWhile (fun name ↦ !faulty name) ∨
          lit s.panel.device name = false) ∧
    ∀ fp_brightness,
      (∀ name ∈ s.panel.fpIndicators, faulty name = false →
        brightness (setBrightness dev this fp_brightness s).2.panel.device name =
          fp_brightness) ↔
      ∀ name ∈ s.panel.fpIndicators, faulty name = false →
        name ∈ s.panel.fpIndicators.takeWhile (fun name ↦ !faulty name) ∨
          brightness s.panel.device name = fp_brightness := by
  refine ⟨written_iff (powerOffAll_written hlit s.panel), ?_⟩
  intro fp_brightness
  have hwritten := setIndicatorsBrightness_written (b := fp_brightness) hbright
    { s.panel with globalLedBrightness := fp_brightness }
  have hsame : brightness (setBrightness dev this fp_brightness s).2.panel.device =
      brightness ((setIndicatorsBrightness dev fp_brightness).run
        { s.panel with globalLedBrightness := fp_brightness }).2.device :=
    powerOn_frame (P := fun d ↦ brightness d = _) (fun name d hd ↦ (hbright.lookup name d).trans hd)
      (fun name bState d hd ↦ (hstate name bState d).trans hd) .all rfl
  rw [hsame]
  exact written_iff (p := { s.panel with globalLedBrightness := fp_brightness }) hwritten

structure Lamps where
  names : List String
  lit : String → Bool
  brightness : String → Int

def lampDevice (faulty : String → Bool) : Device Lamps where
  getIndicators d := (some d.names, d)
  getInstance _ d := (some (), d)
  getColor _ d := (some (), d)
  setState name bState d :=
    if faulty name then (none, d) else (some (), { d with lit := update d.lit name bState })
  setColor name _ _ d := if faulty name then (none, d) else (some (), d)
  getBrightness name _ d := if faulty name then (none, d) else (some (d.brightness name), d)
  setBrightness name brightness _ d :=
    if faulty name then (none, d)
    else (some (), { d with brightness := update d.brightness name brightness })

theorem lampDevice_lit (faulty : String → Bool) :
    Attribute (lampDevice faulty) Lamps.lit (lampDevice faulty).setState faulty where
  lookup _ _ := rfl
  found _ _ _ := rfl
  written name v d h := by simp [lampDevice, h]
  kept name v d other h := by
    simp only [lampDevice]
    split <;> simp [h]
  throws name v d h := by simp [lampDevice, h]

theorem lampDevice_brightness (faulty : String → Bool) :
    Attribute (lampDevice faulty) Lamps.brightness
      (fun name b ↦ (lampDevice faulty).setBrightness name b true) faulty where
  lookup _ _ := rfl
  found _ _ _ := rfl
  written name v d h := by simp [lampDevice, h]
  kept name v d other h := by
    simp only [lampDevice]
    split <;> simp [h]
  throws name v d h := by simp [lampDevice, h]

theorem lampDevice_state (faulty : String → Bool) (name : String) (bState : Bool) (d : Lamps) :
    ((lampDevice faulty).setState name bState d).2.brightness = d.brightness := by
  simp only [lampDevice]
  split <;> rfl

def recordIsFaulty (name : String) : Bool := name = "Record"

def twoLamps : Lamps := ⟨["Record", "Message"], fun _ ↦ true, fun _ ↦ 50⟩

def started (faulty : String → Bool) : State Lamps :=
  instance_ (lampDevice faulty) 1 true .stb (.init twoLamps)

theorem faulty_shields_iff_record :
    ((∀ name ∈ (started recordIsFaulty).panel.fpIndicators, recordIsFaulty name = false →
        (powerOffLed (lampDevice recordIsFaulty) 1 .all
          (started recordIsFaulty)).2.panel.device.lit name = false) ↔
      ∀ name ∈ (started recordIsFaulty).panel.fpIndicators, recordIsFaulty name = false →
        name ∈ (started recordIsFaulty).panel.fpIndicators.takeWhile
          (fun name ↦ !recordIsFaulty name) ∨
            (started recordIsFaulty).panel.device.lit name = false) ∧
    ∀ fp_brightness,
      (∀ name ∈ (started recordIsFaulty).panel.fpIndicators, recordIsFaulty name = false →
        (setBrightness (lampDevice recordIsFaulty) 1 fp_brightness
          (started recordIsFaulty)).2.panel.device.brightness name = fp_brightness) ↔
      ∀ name ∈ (started recordIsFaulty).panel.fpIndicators, recordIsFaulty name = false →
        name ∈ (started recordIsFaulty).panel.fpIndicators.takeWhile
          (fun name ↦ !recordIsFaulty name) ∨
            (started recordIsFaulty).panel.device.brightness name = fp_brightness :=
  faulty_shields_iff (lampDevice_lit _) (lampDevice_brightness _) (lampDevice_state _) 1 _

/-- An indicator that is listed after a faulty one stays lit. -/
theorem shielded_by_faulty :
    ¬ ∀ (faulty : String → Bool) (device : Lamps) (tr : List Action) (this : InstanceId)
      (s : State Lamps), Run (step (lampDevice faulty)) (.init device) tr s →
      s.blink.s_instance = some this → ∀ name ∈ s.panel.fpIndicators, faulty name = false →
        (powerOffLed (lampDevice faulty) this .all s).2.panel.device.lit name = false := by
  intro h
  have hoff := h recordIsFaulty twoLamps [.instance_ 1 true .stb] 1 (started recordIsFaulty)
    (.one rfl) (by decide) "Message" (by decide) (by decide)
  exact absurd hoff (by decide)

end Peripherals.FrontPanel
