import Peripherals.Execution
import Mathlib.Logic.Function.Basic

namespace Peripherals.Synchro.Iarm

open Function Execution

variable {Owner Event Handler : Type}

abbrev DeliveryId := ℕ

/-- `std::map`s from owners to events to handler pointers, where a null pointer
is `some none`. -/
abbrev HandlerMapType (Owner Event Handler : Type) := Owner → Event → Option (Option Handler)

/-- The handler map of a class with what the bus knows: the events it has
`genericIarmHandler` registered for, and the deliveries it has started. -/
structure State (Owner Event Handler : Type) where
  handlers_map : HandlerMapType Owner Event Handler
  registered : Owner → Event → Bool
  deliveries : DeliveryId → Option (Owner × Event)

def State.init : State Owner Event Handler := ⟨fun _ _ ↦ none, fun _ _ ↦ false, fun _ ↦ none⟩

inductive Action (Owner Event Handler : Type)
  | register (owner : Owner) (event : Event) (handler : Handler)
  | remove (owner : Owner) (event : Event) (handler : Handler)
  | startDelivery (d : DeliveryId) (owner : Owner) (event : Event)
  | lockedSection (d : DeliveryId)

def flight (d : DeliveryId) : Action Owner Event Handler → Option (Option (Owner × Event))
  | .startDelivery d' owner event => if d' = d then some (some (owner, event)) else none
  | .lockedSection d' => if d' = d then some none else none
  | .register .. | .remove .. => none

theorem start_of_flight {a : Action Owner Event Handler} {owner : Owner} {event : Event}
    {d : DeliveryId} (h : flight d a = some (some (owner, event))) :
    a = .startDelivery d owner event := by
  cases a <;> simp_all [flight]

variable [DecidableEq Owner] [DecidableEq Event]

/-- `handlers_map[owner][eventId]`, which makes a null entry where there is none. -/
def index (m : HandlerMapType Owner Event Handler) (owner : Owner) (event : Event) :
    Option Handler × HandlerMapType Owner Event Handler :=
  match m owner event with
  | some handler => (handler, m)
  | none => (none, update m owner (update (m owner) event (some none)))

def assign (m : HandlerMapType Owner Event Handler) (owner : Owner) (event : Event)
    (handler : Option Handler) : HandlerMapType Owner Event Handler :=
  update m owner (update (m owner) event (some handler))

def erase (m : HandlerMapType Owner Event Handler) (owner : Owner) (event : Event) :
    HandlerMapType Owner Event Handler := update m owner (update (m owner) event none)

def RegisterLockedIarmEventHandler (s : State Owner Event Handler) (owner : Owner) (event : Event)
    (handler : Handler) : State Owner Event Handler :=
  { s with
    handlers_map := assign s.handlers_map owner event (some handler)
    registered := update s.registered owner (update (s.registered owner) event true) }

/-- The handler that was passed is only compared, for the log, and the entry is
erased in any case. -/
def RemoveLockedEventHandler (s : State Owner Event Handler) (owner : Owner) (event : Event)
    (_handler : Handler) : State Owner Event Handler :=
  { s with
    handlers_map := erase (index s.handlers_map owner event).2 owner event
    registered := update s.registered owner (update (s.registered owner) event false) }

def genericIarmHandler (s : State Owner Event Handler) (owner : Owner) (event : Event) :
    Option Handler × State Owner Event Handler :=
  let (handler, handlers_map) := index s.handlers_map owner event
  (handler, { s with handlers_map := handlers_map })

def step (s : State Owner Event Handler) :
    Action Owner Event Handler → Option (State Owner Event Handler)
  | .register owner event handler => some (RegisterLockedIarmEventHandler s owner event handler)
  | .remove owner event handler => some (RemoveLockedEventHandler s owner event handler)
  | .startDelivery d owner event =>
    if s.registered owner event = true ∧ s.deliveries d = none then
      some { s with deliveries := update s.deliveries d (some (owner, event)) }
    else none
  | .lockedSection d =>
    match s.deliveries d with
    | some (owner, event) =>
      some { (genericIarmHandler s owner event).2 with deliveries := update s.deliveries d none }
    | none => none

def change (owner : Owner) (event : Event) :
    Action Owner Event Handler → Option (Option Handler)
  | .register o e handler => if o = owner ∧ e = event then some (some handler) else none
  | .remove o e _ => if o = owner ∧ e = event then some none else none
  | .startDelivery .. | .lockedSection _ => none

def registeredHandler (tr : List (Action Owner Event Handler)) (owner : Owner) (event : Event) :
    Option Handler := (latest (change owner event) tr).join

variable {s s' : State Owner Event Handler} {a : Action Owner Event Handler}
  {tr : List (Action Owner Event Handler)} {owner : Owner} {event : Event}

theorem registeredHandler_append (tr mid : List (Action Owner Event Handler)) :
    registeredHandler (tr ++ mid) owner event =
      (latest (change owner event) mid).getD (registeredHandler tr owner event) := by
  rw [registeredHandler, latest_append]
  cases latest (change owner event) mid <;> rfl

theorem registeredHandler_snoc : registeredHandler (tr ++ [a]) owner event =
    (change owner event a).getD (registeredHandler tr owner event) := by
  rw [registeredHandler, latest_snoc]
  cases change owner event a <;> rfl

theorem index_join (m : HandlerMapType Owner Event Handler) (o : Owner) (e : Event) :
    (index m o e).1 = (m o e).join ∧
      ∀ owner event, ((index m o e).2 owner event).join = (m owner event).join := by
  unfold index
  split
  · rename_i h
    exact ⟨by rw [h]; rfl, fun _ _ ↦ rfl⟩
  · rename_i h
    refine ⟨by rw [h]; rfl, fun owner event ↦ ?_⟩
    by_cases ho : owner = o
    · subst o
      by_cases he : event = e
      · subst e
        simp [h]
      · simp [update_of_ne he]
    · simp [update_of_ne ho]

theorem update₂_apply {β : Type} (m : Owner → Event → β) (o owner : Owner) (e event : Event)
    (v : β) : update m o (update (m o) e v) owner event =
      if o = owner ∧ e = event then v else m owner event := by
  by_cases ho : owner = o
  · subst o
    by_cases he : event = e
    · subst e
      simp
    · simp [update_of_ne he, Ne.symm he]
  · simp [update_of_ne ho, Ne.symm ho]

theorem step_handlers (owner : Owner) (event : Event) (s : State Owner Event Handler)
    (a : Action Owner Event Handler) (s' : State Owner Event Handler) (h : step s a = some s') :
    (s'.handlers_map owner event).join =
        (change owner event a).getD (s.handlers_map owner event).join ∧
      (s.registered owner event = (s.handlers_map owner event).join.isSome →
        s'.registered owner event = (s'.handlers_map owner event).join.isSome) := by
  cases a with
  | register o e handler =>
    obtain rfl := Option.some.inj h
    simp only [RegisterLockedIarmEventHandler, assign, update₂_apply, change]
    split_ifs <;> simp
  | remove o e handler =>
    obtain rfl := Option.some.inj h
    have hindex := (index_join s.handlers_map o e).2 owner event
    simp only [RemoveLockedEventHandler, erase, update₂_apply, change]
    split_ifs <;> simp [hindex]
  | startDelivery d o e =>
    simp only [step] at h
    split_ifs at h
    obtain rfl := Option.some.inj h
    exact ⟨rfl, id⟩
  | lockedSection d =>
    simp only [step] at h
    split at h
    · obtain rfl := Option.some.inj h
      simp only [genericIarmHandler, change, index_join]
      simp
    · cases h

theorem run_handlers (h : Run step State.init tr s) (owner : Owner) (event : Event) :
    (s.handlers_map owner event).join = registeredHandler tr owner event ∧
      s.registered owner event = (registeredHandler tr owner event).isSome := by
  have hmap := h.eq_latest (v := fun s ↦ (s.handlers_map owner event).join)
    fun s a s' hs ↦ (step_handlers owner event s a s' hs).1
  have hbus : s.registered owner event = (s.handlers_map owner event).join.isSome :=
    h.invariant (I := fun s ↦ s.registered owner event = (s.handlers_map owner event).join.isSome)
      rfl fun s a s' hi hs ↦ (step_handlers owner event s a s' hs).2 hi
  have hreg : (s.handlers_map owner event).join = registeredHandler tr owner event := by
    rw [hmap, registeredHandler]
    cases latest (change owner event) tr <;> rfl
  exact ⟨hreg, hreg ▸ hbus⟩

theorem step_deliveries (d : DeliveryId) (s : State Owner Event Handler)
    (a : Action Owner Event Handler) (s' : State Owner Event Handler) (h : step s a = some s') :
    s'.deliveries d = (flight d a).getD (s.deliveries d) := by
  cases a with
  | register o e handler =>
    obtain rfl := Option.some.inj h
    rfl
  | remove o e handler =>
    obtain rfl := Option.some.inj h
    rfl
  | startDelivery d' o e =>
    simp only [step] at h
    split_ifs at h
    obtain rfl := Option.some.inj h
    by_cases hd : d = d'
    · simp [flight, hd]
    · simp [flight, update_of_ne hd, Ne.symm hd]
  | lockedSection d' =>
    simp only [step] at h
    split at h
    · obtain rfl := Option.some.inj h
      by_cases hd : d = d'
      · simp [flight, hd]
      · simp [flight, update_of_ne hd, Ne.symm hd]
    · cases h

theorem run_deliveries (h : Run step State.init tr s) (d : DeliveryId) :
    s.deliveries d = (latest (flight d) tr).getD none :=
  h.eq_latest (step_deliveries d)

def InvokesRegistered (tr : List (Action Owner Event Handler)) : Prop :=
  ∀ pre d post u owner event, tr = pre ++ .lockedSection d :: post → Run step State.init pre u →
    u.deliveries d = some (owner, event) → ∃ handler,
      (genericIarmHandler u owner event).1 = some handler ∧
        registeredHandler pre owner event = some handler

/-- A removal after the bus has started a delivery is made good by another
registration before the delivery gets the lock. -/
def Undisturbed (tr : List (Action Owner Event Handler)) : Prop :=
  ∀ pre d owner event mid post,
    tr = pre ++ .startDelivery d owner event :: (mid ++ .lockedSection d :: post) →
      (∀ b ∈ mid, flight d b = none) → ∀ x handler y, mid = x ++ .remove owner event handler :: y →
        ∃ handler', .register owner event handler' ∈ y

theorem register_of_change {handler : Handler} (h : change owner event a = some (some handler)) :
    a = .register owner event handler := by
  cases a <;> simp_all [change]

theorem remove_of_change (h : change owner event a = some none) :
    ∃ handler, a = .remove owner event handler := by
  cases a <;> simp_all [change]

theorem registered_of_start {d : DeliveryId} {pre post : List (Action Owner Event Handler)}
    (h : Run step State.init (pre ++ .startDelivery d owner event :: post) s) :
    (registeredHandler pre owner event).isSome = true := by
  obtain ⟨u, u', hu, hs, -⟩ := h.split
  simp only [step] at hs
  split_ifs at hs with hstart
  rw [← (run_handlers hu owner event).2, hstart.1]

theorem undisturbed_of_invokesRegistered (h : Run step State.init tr s)
    (hinv : InvokesRegistered tr) : Undisturbed tr := by
  intro pre d owner event mid post he hmid x handler y hy
  have he' : tr = (pre ++ .startDelivery d owner event :: mid) ++ .lockedSection d :: post := by
    simp [he]
  obtain ⟨u, u', hu, -, -⟩ := (he' ▸ h).split
  have hflight : latest (flight d) (pre ++ .startDelivery d owner event :: mid) =
      some (some (owner, event)) := latest_eq_some.mpr ⟨pre, _, mid, rfl, by simp [flight], hmid⟩
  have hd : u.deliveries d = some (owner, event) := by rw [run_deliveries hu, hflight]; rfl
  obtain ⟨handler', -, hreg⟩ := hinv _ d post u owner event he' hu hd
  have hsplit : pre ++ .startDelivery d owner event :: mid =
      ((pre ++ .startDelivery d owner event :: x) ++ [.remove owner event handler]) ++ y := by
    simp [hy]
  have hremoved : registeredHandler ((pre ++ .startDelivery d owner event :: x) ++
      [.remove owner event handler]) owner event = none := by
    rw [registeredHandler_snoc]
    simp [change]
  rw [hsplit, registeredHandler_append, hremoved] at hreg
  cases hy' : latest (change owner event) y with
  | none => simp [hy'] at hreg
  | some v =>
    obtain rfl : v = some handler' := by simpa [hy'] using hreg
    obtain ⟨y₁, b, y₂, rfl, hb, -⟩ := latest_eq_some.mp hy'
    exact ⟨handler', by simp [register_of_change hb]⟩

theorem invokesRegistered_of_undisturbed (hund : Undisturbed tr) : InvokesRegistered tr := by
  intro pre d post u owner event he hu hd
  have hcall : (genericIarmHandler u owner event).1 = registeredHandler pre owner event :=
    (index_join u.handlers_map owner event).1.trans (run_handlers hu owner event).1
  rw [hcall]
  suffices hsome : (registeredHandler pre owner event).isSome = true by
    obtain ⟨handler, hreg⟩ := Option.isSome_iff_exists.mp hsome
    exact ⟨handler, hreg, hreg⟩
  have hflight : latest (flight d) pre = some (some (owner, event)) := by
    have hget := (run_deliveries hu d).symm.trans hd
    cases hlast : latest (flight d) pre <;> simp_all
  obtain ⟨p, b, mid, rfl, hb, hmid⟩ := latest_eq_some.mp hflight
  obtain rfl := start_of_flight hb
  have hstart := registered_of_start hu
  have hsplit : p ++ .startDelivery d owner event :: mid =
      (p ++ [.startDelivery d owner event]) ++ mid := by simp
  rw [hsplit, registeredHandler_append, registeredHandler_snoc]
  cases hlast : latest (change owner event) mid with
  | none => simpa [change] using hstart
  | some v =>
    cases v with
    | some handler => rfl
    | none =>
      -- the newest change is a removal, which the condition rules out
      obtain ⟨x, b, y, rfl, hb, hy⟩ := latest_eq_some.mp hlast
      obtain ⟨handler, rfl⟩ := remove_of_change hb
      obtain ⟨handler', hmem⟩ := hund p d owner event _ post (by simp [he]) hmid x handler y rfl
      have hnone := hy _ hmem
      simp [change] at hnone

/-- Dispatch is safe exactly as long as no removal overtakes a delivery. -/
theorem invokesRegistered_iff_undisturbed (tr : List (Action Owner Event Handler))
    (s : State Owner Event Handler) (h : Run step State.init tr s) :
    InvokesRegistered tr ↔ Undisturbed tr :=
  ⟨undisturbed_of_invokesRegistered h, invokesRegistered_of_undisturbed⟩

def delivery : List (Action ℕ ℕ ℕ) :=
  [.register 0 1 7, .startDelivery 0 0 1, .register 0 1 8, .lockedSection 0, .remove 0 1 8]

theorem invokesRegistered_iff_undisturbed_delivery :
    ∃ s, Run step State.init delivery s ∧ (InvokesRegistered delivery ↔ Undisturbed delivery) := by
  obtain ⟨s, hs⟩ : ∃ s, Run step State.init delivery s := exists_run (by decide)
  exact ⟨s, hs, invokesRegistered_iff_undisturbed delivery s hs⟩

/-- The delivery is waiting for the lock when its handler is removed, and then
calls a null pointer. -/
theorem removed_handler_invoked : ¬ ∀ (tr : List (Action ℕ ℕ ℕ)) (s : State ℕ ℕ ℕ),
    Run step State.init tr s → InvokesRegistered tr := by
  intro hall
  let pre : List (Action ℕ ℕ ℕ) := [.register 0 1 7, .startDelivery 0 0 1, .remove 0 1 7]
  have hpre : ((pre.foldlM step State.init).bind fun u ↦ u.deliveries 0) = some (0, 1) := by decide
  obtain ⟨s, hs⟩ : ∃ s, Run step State.init (pre ++ [Action.lockedSection 0]) s :=
    exists_run (by decide)
  obtain ⟨u, hu, hd⟩ := Option.bind_eq_some_iff.mp hpre
  obtain ⟨handler, -, hreg⟩ := hall _ s hs pre 0 [] u 0 1 rfl (run_iff_foldlM.mpr hu) hd
  have hnone : registeredHandler pre 0 1 = none := by decide
  rw [hnone] at hreg
  cases hreg

end Peripherals.Synchro.Iarm
