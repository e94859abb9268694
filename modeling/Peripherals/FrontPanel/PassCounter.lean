import Peripherals.FrontPanel.Playback

namespace Peripherals.FrontPanel.PassCounter

open Thunder Execution

theorem exists_split_of_lt_countP {A : Type*} {p : A → Bool} {l : List A} {n : ℕ}
    (h : n < l.countP p) : ∃ l₁ a l₂, l = l₁ ++ a :: l₂ ∧ l₁.countP p = n ∧ p a = true := by
  induction l generalizing n with
  | nil => simp at h
  | cons a l ih =>
    by_cases ha : p a = true
    · cases n with
      | zero => exact ⟨[], a, l, rfl, rfl, ha⟩
      | succ n =>
        rw [List.countP_cons_of_pos ha] at h
        obtain ⟨l₁, b, l₂, rfl, hn, hb⟩ := ih (Nat.lt_of_succ_lt_succ h)
        exact ⟨a :: l₁, b, l₂, rfl, by rw [List.countP_cons_of_pos ha, hn], hb⟩
    · rw [List.countP_cons_of_neg ha] at h
      obtain ⟨l₁, b, l₂, rfl, hn, hb⟩ := ih h
      exact ⟨a :: l₁, b, l₂, rfl, by rw [List.countP_cons_of_neg ha, hn], hb⟩

variable {D : Type} {dev : Device D} {s s' u : State D} {b b' : Blink} {this : InstanceId}
  {a : Action} {tr mid : List Action} {size n j : ℕ} {k : Int} {p q : Prop}

def isFire : Action → Bool
  | .fire _ => true
  | _ => false

/-- The step runs `m_numberOfBlinks++`. -/
def increments (s : State D) : Action → Bool
  | .fire j =>
    match s.blink.blinkTimer[j]? with
    | some job => s.blink.s_instance = some job.m_frontPanel &&
        pastEnd (toInt (s.blink.m_currentBlinkListIndex + 1)) s.blink.m_blinkList.length
    | none => false
  | _ => false

/-- An increment does not start at the largest `int`, and the number that is then
compared is one more. -/
def InRange (s : State D) (a : Action) : Prop :=
  increments s a = true → s.blink.m_numberOfBlinks ≠ 2 ^ 31 - 1 ∧
    toInt (s.blink.m_numberOfBlinks + 1) = s.blink.m_numberOfBlinks + 1

/-- The firings of one pass. No `int` goes to the end of a longer pattern. -/
def period (size : ℕ) : ℕ := min size (2 ^ 31)

/-- The counter after `n` firings since it was zero, for a pattern of `size` frames
that is repeated up to `k` times. In `p`, another firing may come. -/
structure Counted (size : ℕ) (k : Int) (n : ℕ) (p : Prop) (b : Blink) : Prop where
  number : b.m_numberOfBlinks = toInt (n / period size : ℕ)
  index : b.m_currentBlinkListIndex = (n % period size : ℕ)
  repeats : b.m_maxNumberOfBlinkRepeats = k
  pattern : p → b.m_blinkList.length = size
  allowed : p → 0 ≤ k → k < 2 ^ 31 - 1 → n / period size ≤ k.toNat

theorem Counted.mono (h : Counted size k n p b) (hpq : q → p) : Counted size k n q b :=
  ⟨h.number, h.index, h.repeats, fun hq ↦ h.pattern (hpq hq), fun hq ↦ h.allowed (hpq hq)⟩

theorem Counted.idle (h : Counted size k n p b) (hjob : b'.blinkTimer = [])
    (hnumber : b'.m_numberOfBlinks = b.m_numberOfBlinks)
    (hindex : b'.m_currentBlinkListIndex = b.m_currentBlinkListIndex)
    (hrepeats : b'.m_maxNumberOfBlinkRepeats = b.m_maxNumberOfBlinkRepeats) :
    Counted size k n (b'.blinkTimer ≠ []) b' :=
  ⟨hnumber.trans h.number, hindex.trans h.index, hrepeats.trans h.repeats,
    fun hne ↦ (hne hjob).elim, fun hne ↦ (hne hjob).elim⟩

theorem period_pos (h : 0 < size) : 0 < period size := by
  unfold period
  omega

theorem period_le (size : ℕ) : period size ≤ 2 ^ 31 := Nat.min_le_right ..

theorem pastEnd_succ (hi : n < period size) :
    pastEnd (toInt ((n : Int) + 1)) size = true ↔ n + 1 = period size := by
  rw [pastEnd_iff]
  unfold toInt
  unfold period at *
  omega

theorem toInt_toInt_succ (n : Int) : toInt (toInt n + 1) = toInt (n + 1) := by
  unfold toInt
  omega

theorem toInt_natCast (h : n < 2 ^ 31) : toInt (n : Int) = n := by
  unfold toInt
  omega

theorem advance_counted (h : Counted size k n True b) (hpos : 0 < size) :
    Counted size k (n + 1) ((advance b).1 = true) (advance b).2 := by
  have hlt := Nat.mod_lt n (period_pos hpos)
  have hend : pastEnd (toInt (b.m_currentBlinkListIndex + 1)) b.m_blinkList.length = true ↔
      n % period size + 1 = period size := by
    rw [h.index, h.pattern trivial]
    exact pastEnd_succ hlt
  unfold advance
  dsimp only
  split_ifs with hpast
  · obtain ⟨hmod, hdiv⟩ := wrap_mod (hend.mp hpast)
    have hnumber : toInt (b.m_numberOfBlinks + 1) = toInt ((n + 1) / period size : ℕ) := by
      rw [h.number, toInt_toInt_succ, hdiv]
      rfl
    refine ⟨hnumber, by rw [hmod]; rfl, h.repeats, fun _ ↦ h.pattern trivial, ?_⟩
    intro hagain hk₀ hk
    have hn := h.allowed trivial hk₀ hk
    rw [decide_eq_true_eq, hnumber, h.repeats, hdiv, toInt_natCast (by omega)] at hagain
    omega
  · rw [hend] at hpast
    have hnext : n % period size + 1 < period size := by omega
    obtain ⟨hmod, hdiv⟩ := next_mod hnext
    have hlast := period_le size
    refine ⟨?_, ?_, h.repeats, fun _ ↦ h.pattern trivial, ?_⟩
    · rw [hdiv]
      exact h.number
    · rw [hmod, h.index]
      exact toInt_succ (by omega)
    · rw [hdiv]
      exact fun _ ↦ h.allowed trivial

theorem playCurrent_frame (dev : Device D) (this : InstanceId) (s : State D) :
    ∃ timer applied thrown, (playCurrent dev this s).blink = { s.blink with
      blinkTimer := timer, applied := applied, outOfRange := thrown } := by
  unfold playCurrent applyCurrent
  cases at? s.blink.m_blinkList s.blink.m_currentBlinkListIndex with
  | none => exact ⟨_, _, _, rfl⟩
  | some blinkInfo =>
    dsimp only
    unfold scheduleIfBlinking setBlinkLed
    split_ifs <;> exact ⟨_, _, _, rfl⟩

theorem playCurrent_counted (h : Counted size k n p s.blink) :
    Counted size k n p (playCurrent dev this s).blink := by
  obtain ⟨timer, applied, thrown, hframe⟩ := playCurrent_frame dev this s
  rw [hframe]
  exact ⟨h.number, h.index, h.repeats, h.pattern, h.allowed⟩

theorem advance_frame (b : Blink) :
    (advance b).2.blinkTimer = b.blinkTimer ∧ (advance b).2.started = b.started := by
  unfold advance
  dsimp only
  split_ifs <;> exact ⟨rfl, rfl⟩

theorem onBlinkTimer_counted (h : Counted size k n True s.blink) (hpos : 0 < size)
    (hjob : s.blink.blinkTimer = []) :
    Counted size k (n + 1) ((onBlinkTimer dev this s).blink.blinkTimer ≠ [])
      (onBlinkTimer dev this s).blink := by
  have hadvance := advance_counted h hpos
  have htimer := (advance_frame s.blink).1.trans hjob
  unfold onBlinkTimer
  split
  · rename_i b hb
    rw [hb] at hadvance
    exact (playCurrent_counted hadvance).mono fun _ ↦ rfl
  · rename_i b hb
    rw [hb] at hadvance htimer
    exact hadvance.mono fun hne ↦ (hne htimer).elim

theorem control_counted (hc : Control a b b') (ha : a ≠ .start) (hvalid : Valid b)
    (h : Counted size k n (b.blinkTimer ≠ []) b) :
    Counted size k n (b'.blinkTimer ≠ []) b' := by
  cases hc with
  | keep _ => exact h
  | stop hthis => exact h.idle (hvalid.stop hthis).no_job rfl rfl rfl
  | stop_twice hthis => exact h.idle ((hvalid.stop hthis).stop _).no_job rfl rfl rfl
  | delete hthis => exact h.idle (hvalid.stop hthis).no_job rfl rfl rfl
  | construct fp _ _ =>
    unfold construct
    split
    · exact h
    · rename_i hnone
      exact h.idle (hvalid.no_job hnone) rfl rfl rfl
  | start => exact (ha rfl).elim

theorem start_blink (hs : step dev s .start = some s') :
    s'.blink = if s.blink.started then s.blink else { s.blink with
      m_numberOfBlinks := 0, m_maxNumberOfBlinkRepeats := 0, m_currentBlinkListIndex := 0,
      started := true } := by
  rcases step_method hs with ⟨_, _, _, hinstance⟩ | ⟨_, hfire⟩ | ⟨this, -, hm⟩
  · cases hinstance
  · cases hfire
  · obtain rfl := Option.some.inj hm
    rfl

theorem start_counted (hs : step dev s .start = some s')
    (h : Counted size k n (s.blink.blinkTimer ≠ []) s.blink) (hfirst : s.blink.started = false) :
    Counted size 0 0 (s'.blink.blinkTimer ≠ []) s'.blink := by
  rw [start_blink hs, hfirst, if_neg Bool.false_ne_true]
  refine ⟨?_, ?_, rfl, h.pattern, fun _ _ _ ↦ ?_⟩
  · rw [Nat.zero_div]
    rfl
  · rw [Nat.zero_mod]
    rfl
  · exact (Nat.zero_div _).le

theorem onBlinkTimer_frame (dev : Device D) (this : InstanceId) (s : State D) :
    ∃ timer applied thrown, (onBlinkTimer dev this s).blink = { (advance s.blink).2 with
      blinkTimer := timer, applied := applied, outOfRange := thrown } := by
  unfold onBlinkTimer
  split
  · rename_i b hb
    obtain ⟨timer, applied, thrown, hframe⟩ := playCurrent_frame dev this { s with blink := b }
    rw [hb]
    exact ⟨timer, applied, thrown, hframe⟩
  · rename_i b hb
    rw [hb]
    exact ⟨_, _, _, rfl⟩

theorem onBlinkTimer_started (dev : Device D) (this : InstanceId) (s : State D) :
    (onBlinkTimer dev this s).blink.started = s.blink.started := by
  obtain ⟨timer, applied, thrown, hframe⟩ := onBlinkTimer_frame dev this s
  rw [hframe]
  exact (advance_frame s.blink).2

theorem setBlink_frame (dev : Device D) (this : InstanceId) (blinkInfo : JsonObject) (s : State D) :
    ∃ timer applied thrown, (setBlink dev this blinkInfo s).blink =
      { rewind this (iterations blinkInfo) s.blink with
        m_blinkList := frames blinkInfo, blinkTimer := timer, applied := applied,
        outOfRange := thrown } := by
  unfold setBlink startBlinkTimer
  dsimp only
  split_ifs
  · obtain ⟨timer, applied, thrown, hframe⟩ := playCurrent_frame dev this { s with
      blink := rewind this (iterations blinkInfo)
        { stopBlinkTimer this s.blink with m_blinkList := frames blinkInfo } }
    exact ⟨timer, applied, thrown, hframe⟩
  · exact ⟨_, _, _, rfl⟩

theorem setBlink_counted (dev : Device D) (this : InstanceId) (blinkInfo : JsonObject)
    (s : State D) : Counted (frames blinkInfo).length (iterations blinkInfo) 0
      ((setBlink dev this blinkInfo s).blink.blinkTimer ≠ [])
        (setBlink dev this blinkInfo s).blink := by
  obtain ⟨timer, applied, thrown, hframe⟩ := setBlink_frame dev this blinkInfo s
  rw [hframe]
  refine ⟨?_, ?_, rfl, fun _ ↦ rfl, fun _ _ _ ↦ ?_⟩
  · rw [Nat.zero_div]
    rfl
  · rw [Nat.zero_mod]
    rfl
  · rw [Nat.zero_div]
    exact Nat.zero_le _

theorem control_started (hc : Control a b b') (ha : a ≠ .start) : b'.started = b.started := by
  cases hc with
  | construct fp _ _ =>
    unfold construct
    split <;> rfl
  | start => exact (ha rfl).elim
  | _ => rfl

theorem step_started (hvalid : Valid s.blink) (hs : step dev s a = some s') :
    s'.blink.started = true ↔ s.blink.started = true ∨ a = .start := by
  by_cases ha : a = .start
  · subst ha
    rw [start_blink hs]
    split_ifs with hstarted
    · simp [hstarted]
    · simp
  · rcases step_control hs with hc | ⟨this, blinkInfo, -, -, rfl⟩ | ⟨j, job, -, hjob, rfl⟩
    · rw [control_started hc ha, or_iff_left ha]
    · obtain ⟨timer, applied, thrown, hframe⟩ := setBlink_frame dev this blinkInfo s
      rw [hframe, or_iff_left ha]
      rfl
    · rw [hvalid.timed_eq hjob, onBlinkTimer_started, or_iff_left ha]

theorem timer_ne_nil (hs : step dev s (.fire j) = some s') : s.blink.blinkTimer ≠ [] := by
  obtain ⟨job, hjob, -⟩ := step_fire hs
  exact List.ne_nil_of_mem (List.mem_of_getElem? hjob)

theorem Counted.size_pos (h : Counted size k n (b.blinkTimer ≠ []) b) (hvalid : Valid b)
    (hne : b.blinkTimer ≠ []) : 0 < size := by
  have hindex := hvalid.index hne
  rw [h.pattern hne] at hindex
  omega

theorem fire_counted (hvalid : Valid s.blink) (hs : step dev s (.fire j) = some s')
    (h : Counted size k n (s.blink.blinkTimer ≠ []) s.blink) :
    Counted size k (n + 1) (s'.blink.blinkTimer ≠ []) s'.blink := by
  have hne := timer_ne_nil hs
  obtain ⟨job, hjob, rfl⟩ := step_fire hs
  rw [hvalid.timed_eq hjob]
  refine onBlinkTimer_counted ?_ (h.size_pos hvalid hne) rfl
  exact ⟨h.number, h.index, h.repeats, fun _ ↦ h.pattern hne, fun _ ↦ h.allowed hne⟩

theorem step_counted (hvalid : Valid s.blink) (hs : step dev s a = some s')
    (ha : isSetBlink a = false) (hstart : a = .start → s.blink.started = true)
    (h : Counted size k n (s.blink.blinkTimer ≠ []) s.blink) :
    Counted size k (n + [a].countP isFire) (s'.blink.blinkTimer ≠ []) s'.blink := by
  by_cases hfire : ∃ j, a = .fire j
  · obtain ⟨j, rfl⟩ := hfire
    exact fire_counted hvalid hs h
  · have hzero : [a].countP isFire = 0 := by
      cases a with
      | fire j => exact (hfire ⟨j, rfl⟩).elim
      | _ => rfl
    rw [hzero]
    by_cases hfirst : a = .start
    · subst hfirst
      rw [start_blink hs, hstart rfl]
      exact h
    · rcases step_control hs with hc | ⟨this, blinkInfo, rfl, -⟩ | ⟨j, job, rfl, -⟩
      · exact control_counted hc hfirst hvalid h
      · cases ha
      · exact (hfire ⟨j, rfl⟩).elim

theorem run_counted (hvalid : Valid s.blink) (hr : Run (step dev) s mid s')
    (hmid : ∀ a ∈ mid, isSetBlink a = false) (hstart : .start ∈ mid → s.blink.started = true)
    (h : Counted size k n (s.blink.blinkTimer ≠ []) s.blink) :
    Counted size k (n + mid.countP isFire) (s'.blink.blinkTimer ≠ []) s'.blink := by
  have hstep : ∀ u a u', Valid u.blink → step dev u a = some u' → Valid u'.blink :=
    fun _ _ _ hu hs ↦ step_valid hu hs
  induction hr with
  | nil => exact h
  | @snoc mid u u' a hr hs ih =>
    obtain ⟨hbefore, ha⟩ := List.forall_mem_append.mp hmid
    have hu : Valid u.blink := hr.invariant (I := fun u ↦ Valid u.blink) hvalid hstep
    have hcounted := ih hbefore fun hmem ↦ hstart (List.mem_append_left _ hmem)
    rw [List.countP_append, ← Nat.add_assoc]
    refine step_counted hu hs (ha a (List.mem_singleton_self a)) ?_ hcounted
    rintro rfl
    have hbegun := hstart (List.mem_append_right _ (List.mem_singleton_self _))
    exact (hr.invariant (I := fun u ↦ Valid u.blink ∧ u.blink.started = true) ⟨hvalid, hbegun⟩
      fun _ _ _ hu hs ↦ ⟨step_valid hu.1 hs, (step_started hu.1 hs).mpr (.inl hu.2)⟩).2

theorem run_started {device : D} (h : Run (step dev) (State.init device) tr s) :
    s.blink.started = true ↔ .start ∈ tr := by
  induction h with
  | nil => simp [State.init, Blink.init]
  | snoc h hs ih =>
    rw [step_started (run_valid h) hs, ih, List.mem_append, List.mem_singleton,
      @eq_comm _ Action.start]

/-- Nothing in `mid` zeroes the counter. -/
structure Keeps (pre mid : List Action) : Prop where
  no_setBlink : ∀ a ∈ mid, isSetBlink a = false
  no_first : .start ∈ mid → .start ∈ pre

theorem run_setBlink {device : D} {pre : List Action} {blinkInfo : JsonObject}
    (hkeeps : Keeps pre mid)
    (h : Run (step dev) (State.init device) (pre ++ .setBlink blinkInfo :: mid) s) :
    Counted (frames blinkInfo).length (iterations blinkInfo) (mid.countP isFire)
      (s.blink.blinkTimer ≠ []) s.blink := by
  obtain ⟨u, u', hu, hset, hmid⟩ := h.split
  have hvalid := step_valid (run_valid hu) hset
  have hstart : .start ∈ mid → u'.blink.started = true := fun hmem ↦
    (step_started (run_valid hu) hset).mpr (.inl ((run_started hu).mpr (hkeeps.no_first hmem)))
  have hcounted : Counted (frames blinkInfo).length (iterations blinkInfo) 0
      (u'.blink.blinkTimer ≠ []) u'.blink := by
    obtain ⟨this, -, rfl⟩ := step_setBlink hset
    exact setBlink_counted ..
  rw [← Nat.zero_add (mid.countP isFire)]
  exact run_counted hvalid hmid hkeeps.no_setBlink hstart hcounted

theorem Keeps.snoc {pre : List Action} (h : Keeps pre mid) (ha : isSetBlink a = false)
    (hstart : a = .start → .start ∈ pre ∨ .start ∈ mid) : Keeps pre (mid ++ [a]) := by
  refine ⟨?_, ?_⟩
  · simpa [or_imp, forall_and, ha] using h.no_setBlink
  · intro hmem
    rcases List.mem_append.mp hmem with hmid | hlast
    · exact h.no_first hmid
    · rcases hstart (List.mem_singleton.mp hlast).symm with hpre | hmid
      · exact hpre
      · exact h.no_first hmid

/-- Where the counter was zeroed: by the first `start`, which leaves a single pass,
or by a `setBlink`. -/
inductive Origin (s : State D) : List Action → Prop
  | first {size n : ℕ} {tr : List Action} :
      Counted size 0 n (s.blink.blinkTimer ≠ []) s.blink → Origin s tr
  | setBlink {pre mid : List Action} {blinkInfo : JsonObject} :
      Keeps pre mid → Origin s (pre ++ .setBlink blinkInfo :: mid)

theorem run_origin {device : D} (h : Run (step dev) (State.init device) tr s) :
    s.blink.blinkTimer ≠ [] → Origin s tr := by
  refine h.history (P := fun tr s ↦ s.blink.blinkTimer ≠ [] → Origin s tr) ?_ ?_
  · exact fun hne ↦ (hne rfl).elim
  · intro tr s a s' h ih hs hjob'
    cases ha : isSetBlink a with
    | true =>
      obtain ⟨blinkInfo, rfl⟩ : ∃ blinkInfo, a = .setBlink blinkInfo := by
        cases a with
        | setBlink blinkInfo => exact ⟨blinkInfo, rfl⟩
        | _ => cases ha
      exact .setBlink ⟨by simp, by simp⟩
    | false =>
      have hvalid := run_valid h
      have hjob : s.blink.blinkTimer ≠ [] := fun hnil ↦
        hjob' (step_idle ⟨hnil, hvalid.no_throw, hvalid.no_dangling⟩ ha hs).1.no_job
      by_cases hstart : a = .start → s.blink.started = true
      · cases ih hjob with
        | first hcounted => exact .first (step_counted hvalid hs ha hstart hcounted)
        | setBlink hkeeps =>
          rw [List.append_assoc]
          refine .setBlink (hkeeps.snoc ha fun hfirst ↦ ?_)
          simpa using (run_started h).mp (hstart hfirst)
      · obtain ⟨rfl, hfirst⟩ := Classical.not_imp.mp hstart
        rw [Bool.not_eq_true] at hfirst
        cases ih hjob with
        | first hcounted => exact .first (start_counted hs hcounted hfirst)
        | setBlink hkeeps => exact .first (start_counted hs (run_setBlink hkeeps h) hfirst)

theorem exists_fire (hinc : increments s a = true) : ∃ j, a = .fire j := by
  cases a with
  | fire j => exact ⟨j, rfl⟩
  | _ => cases hinc

/-- The increment comes with the last firing of a pass. -/
theorem increments_iff (hvalid : Valid s.blink) (hs : step dev s (.fire j) = some s')
    (h : Counted size k n (s.blink.blinkTimer ≠ []) s.blink) :
    increments s (.fire j) = true ↔ n % period size + 1 = period size := by
  have hne := timer_ne_nil hs
  obtain ⟨job, hjob, -⟩ := step_fire hs
  have howner := hvalid.owner job (List.mem_of_getElem? hjob)
  simp only [increments, hjob, howner, decide_true, Bool.true_and]
  rw [h.index, h.pattern hne]
  exact pastEnd_succ (Nat.mod_lt n (period_pos (h.size_pos hvalid hne)))

theorem inRange_of_counted (hvalid : Valid s.blink) (hs : step dev s a = some s')
    (h : Counted size k n (s.blink.blinkTimer ≠ []) s.blink)
    (hbelow : (0 ≤ k ∧ k < 2 ^ 31 - 1) ∨ n + 1 < 2 ^ 31 * period size) : InRange s a := by
  intro hinc
  obtain ⟨j, rfl⟩ := exists_fire hinc
  have hne := timer_ne_nil hs
  have hlast := (increments_iff hvalid hs h).mp hinc
  have hpasses : n / period size + 1 < 2 ^ 31 := by
    rcases hbelow with ⟨hk₀, hk⟩ | hfew
    · have hallowed := h.allowed hne hk₀ hk
      omega
    · have hdiv := Nat.mod_add_div n (period size)
      have hwhole : n + 1 = period size * (n / period size + 1) := by
        rw [Nat.mul_succ]
        omega
      rw [hwhole, Nat.mul_comm (2 ^ 31)] at hfew
      exact Nat.lt_of_mul_lt_mul_left hfew
  rw [h.number, toInt_natCast (by omega)]
  refine ⟨by omega, ?_⟩
  exact toInt_succ hpasses

theorem not_inRange (hvalid : Valid s.blink) (hs : step dev s (.fire j) = some s')
    (h : Counted size k n (s.blink.blinkTimer ≠ []) s.blink)
    (hn : n + 1 = 2 ^ 31 * period size) : ¬ InRange s (.fire j) := by
  have hsplit : n = period size - 1 + period size * (2 ^ 31 - 1) := by omega
  have hpos : 0 < period size := by omega
  have hmod : n % period size = period size - 1 := by
    rw [hsplit, Nat.add_mul_mod_self_left, Nat.mod_eq_of_lt (by omega)]
  have hdiv : n / period size = 2 ^ 31 - 1 := by
    rw [hsplit, Nat.add_mul_div_left _ _ hpos, Nat.div_eq_of_lt (by omega), Nat.zero_add]
  intro hrange
  have hinc := (increments_iff hvalid hs h).mpr (by omega)
  refine (hrange hinc).1 ?_
  rw [h.number, hdiv]
  rfl

theorem along_inRange {device : D} (h : Run (step dev) (State.init device) tr s)
    (hbelow : ∀ pre blinkInfo mid post, tr = pre ++ .setBlink blinkInfo :: (mid ++ post) →
      Keeps pre mid → frames blinkInfo ≠ [] →
        (0 ≤ iterations blinkInfo ∧ iterations blinkInfo < 2 ^ 31 - 1) ∨
          mid.countP isFire < 2 ^ 31 * period (frames blinkInfo).length) :
    Along (step dev) (State.init device) InRange tr := by
  intro before a after u he hu hinc
  subst he
  obtain ⟨u', hs⟩ := h.step_at hu
  obtain ⟨j, rfl⟩ := exists_fire hinc
  have hne := timer_ne_nil hs
  have hvalid := run_valid hu
  refine (?_ : InRange u (.fire j)) hinc
  cases run_origin hu hne with
  | first hcounted => exact inRange_of_counted hvalid hs hcounted (.inl (by omega))
  | @setBlink pre mid blinkInfo hkeeps =>
    have hcounted := run_setBlink hkeeps hu
    have hframes : frames blinkInfo ≠ [] :=
      List.ne_nil_of_length_pos (hcounted.size_pos hvalid hne)
    refine inRange_of_counted hvalid hs hcounted ?_
    have hlast := hbelow pre blinkInfo (mid ++ [.fire j]) after (by simp)
      (hkeeps.snoc rfl fun hstart ↦ by cases hstart) hframes
    rw [List.countP_append] at hlast
    exact hlast

theorem firings_below {device : D} {pre post : List Action} {blinkInfo : JsonObject}
    (h : Run (step dev) (State.init device) (pre ++ .setBlink blinkInfo :: (mid ++ post)) s)
    (hrange : Along (step dev) (State.init device) InRange
      (pre ++ .setBlink blinkInfo :: (mid ++ post)))
    (hkeeps : Keeps pre mid) (hframes : frames blinkInfo ≠ []) :
    mid.countP isFire < 2 ^ 31 * period (frames blinkInfo).length := by
  have hpos := period_pos (List.length_pos_of_ne_nil hframes)
  by_contra hmany
  obtain ⟨before, a, after, rfl, hcount, ha⟩ := exists_split_of_lt_countP
    (show 2 ^ 31 * period (frames blinkInfo).length - 1 < mid.countP isFire by omega)
  obtain ⟨j, rfl⟩ : ∃ j, a = .fire j := by
    cases a with
    | fire j => exact ⟨j, rfl⟩
    | _ => cases ha
  have hkeeps' : Keeps pre before := ⟨fun b hb ↦ hkeeps.no_setBlink b (List.mem_append_left _ hb),
    fun hstart ↦ hkeeps.no_first (List.mem_append_left _ hstart)⟩
  have he : pre ++ .setBlink blinkInfo :: (before ++ .fire j :: after ++ post) =
      (pre ++ .setBlink blinkInfo :: before) ++ .fire j :: (after ++ post) := by simp
  rw [he] at h hrange
  obtain ⟨u, u', hu, hs, -⟩ := h.split
  exact not_inRange (run_valid hu) hs (run_setBlink hkeeps' hu) (by omega) (hrange _ _ _ u rfl hu)

/-- The counter stays an `int`, unless a pattern that has no end, or the largest number
of repeats, is left to play `2 ^ 31` passes. -/
theorem counter_inRange_iff {device : D} (h : Run (step dev) (State.init device) tr s) :
    Along (step dev) (State.init device) InRange tr ↔
      ∀ pre blinkInfo mid post, tr = pre ++ .setBlink blinkInfo :: (mid ++ post) →
        Keeps pre mid → frames blinkInfo ≠ [] →
          (0 ≤ iterations blinkInfo ∧ iterations blinkInfo < 2 ^ 31 - 1) ∨
            mid.countP isFire < 2 ^ 31 * period (frames blinkInfo).length := by
  refine ⟨?_, along_inRange h⟩
  intro hrange pre blinkInfo mid post he hkeeps hframes
  subst he
  exact .inr (firings_below h hrange hkeeps hframes)

theorem counter_inRange_iff_playback : ∃ s, Run (step quietDevice) (State.init ()) playback s ∧
    (Along (step quietDevice) (State.init ()) InRange playback ↔
      ∀ pre blinkInfo mid post, playback = pre ++ .setBlink blinkInfo :: (mid ++ post) →
        Keeps pre mid → frames blinkInfo ≠ [] →
          (0 ≤ iterations blinkInfo ∧ iterations blinkInfo < 2 ^ 31 - 1) ∨
            mid.countP isFire < 2 ^ 31 * period (frames blinkInfo).length) := by
  obtain ⟨s, hs⟩ : ∃ s, Run (step quietDevice) (State.init ()) playback s :=
    exists_run (by decide +kernel)
  exact ⟨s, hs, counter_inRange_iff hs⟩

def endless : JsonObject :=
  [("ledIndicator", .ofString "power_led"), ("iterations", .ofString "-1"),
    ("pattern", .ofArray [.ofObject [("red", .ofNat 255), ("duration", .ofNat 100)]])]

def endlessPlayback : List Action :=
  [.instance_ 1 true .stb, .start] ++ .setBlink endless :: List.replicate (2 ^ 31) (.fire 0)

theorem counter_overflows : ∃ s, Run (step quietDevice) (State.init ()) endlessPlayback s ∧
    ¬ Along (step quietDevice) (State.init ()) InRange endlessPlayback := by
  obtain ⟨v, hv⟩ : ∃ v, Run (step quietDevice) (State.init ())
      ([.instance_ 1 true .stb, .start] ++ .setBlink endless :: []) v :=
    exists_run (by decide +kernel)
  obtain ⟨u, u', hu, hset, -⟩ := hv.split
  obtain ⟨this, hthis, rfl⟩ := step_setBlink hset
  have hone : (frames endless).length = 1 := rfl
  have hframes : frames endless ≠ [] := List.ne_nil_of_length_pos (by omega)
  have hplaying := setBlink_playing quietDevice (run_valid hu) hthis hframes
  obtain ⟨s, hfirings⟩ : ∃ s, Run (step quietDevice) (setBlink quietDevice this endless u)
      (List.replicate (2 ^ 31) (.fire 0)) s :=
    exists_firings (by omega) (by decide) (fun hk ↦ absurd hk (by decide)) hplaying
  have hs : Run (step quietDevice) (State.init ()) endlessPlayback s :=
    hu.trans (.cons hset hfirings)
  refine ⟨s, hs, fun hrange ↦ ?_⟩
  have he : endlessPlayback = [.instance_ 1 true .stb, .start] ++
      .setBlink endless :: (List.replicate (2 ^ 31) (.fire 0) ++ []) := by
    rw [List.append_nil]
    rfl
  have hkeeps : Keeps [.instance_ 1 true .stb, .start] (List.replicate (2 ^ 31) (.fire 0)) := by
    refine ⟨fun a ha ↦ ?_, fun _ ↦ by simp⟩
    rw [List.eq_of_mem_replicate ha]
    rfl
  rw [he] at hs hrange
  have hbelow := firings_below hs hrange hkeeps hframes
  rw [List.countP_replicate, hone] at hbelow
  exact absurd hbelow (by simp [isFire, period])

end Peripherals.FrontPanel.PassCounter
