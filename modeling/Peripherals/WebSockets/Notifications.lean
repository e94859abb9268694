import Peripherals.WebSockets.Fulfilment

namespace Peripherals.WebSockets.JsonRpcInterface

open Function Thunder JsonRpc Execution

/-- The handler of notifications is set, or a message comes that answers no request. -/
def Action.inert (codec : Codec) : Action → Bool
  | .setNotificationHandler _ => true
  | .message text => match dispatch codec text with
    | .response _ => false
    | _ => true
  | _ => false

def State.hearing (s : State) (present : Bool) (notifications : List Message) : State :=
  { s with notificationHandler := present, notifications := notifications }

def State.unheard (s : State) : State := s.hearing false []

/-- The notifications that a handler is called with, given whether there is one at first. -/
def heard (codec : Codec) : Bool → List Action → List Message
  | _, [] => []
  | _, .setNotificationHandler present :: rest => heard codec present rest
  | present, .message text :: rest =>
    if dispatch codec text = .notification ∧
        Notification.isValid codec (codec.parseMessage text) = true ∧ present = true then
      codec.parseMessage text :: heard codec present rest
    else heard codec present rest
  | present, _ :: rest => heard codec present rest

variable {codec : Codec} {s s' : State} {a : Action} {tr : List Action} {present : Bool}
  {notifications : List Message}

theorem handleResponse_hearing {i : UInt32} {text : String} :
    handleResponse (s.hearing present notifications) i text =
      (handleResponse s i text).map (·.hearing present notifications) := by
  have hmap : (s.hearing present notifications).responseToPromise = s.responseToPromise := rfl
  have hpromises : (s.hearing present notifications).promises = s.promises := rfl
  simp only [handleResponse, hmap, hpromises]
  split
  · rfl
  · split <;> rfl

/-- The sections of the callers neither read nor change what is heard. -/
theorem step_hearing (present : Bool) (notifications : List Message)
    (ha : a.inert codec = false) :
    step codec (s.hearing present notifications) a =
      (step codec s a).map (·.hearing present notifications) := by
  have hcalls : (s.hearing present notifications).calls = s.calls := rfl
  have hmap : (s.hearing present notifications).responseToPromise = s.responseToPromise := rfl
  have hpromises : (s.hearing present notifications).promises = s.promises := rfl
  cases a with
  | create c method parameters =>
    have hsequence : (s.hearing present notifications).idSequence = s.idSequence := rfl
    simp only [step, hcalls, hsequence]
    split
    · split <;> rfl
    · rfl
  | supply c r =>
    simp only [step, hcalls]
    split <;> rfl
  | check c =>
    have hongoing : isRequestProcessingOngoing (s.hearing present notifications) =
      isRequestProcessingOngoing s := rfl
    simp only [step, hcalls, hongoing]
    split
    · rw [apply_ite (Option.map _)]
      rfl
    · rfl
  | register c i =>
    simp only [step, hcalls, createFutureResponse, hmap]
    split
    · split
      · cases s.responseToPromise i <;> rfl
      · rfl
    · rfl
  | send c ec =>
    simp only [step, hcalls]
    split
    · rw [apply_ite (Option.map _)]
      rfl
    · rfl
  | wait c status =>
    simp only [step, hcalls, hpromises]
    split
    · rw [apply_ite (Option.map _)]
      rfl
    · rfl
  | remove c i =>
    simp only [step, hcalls]
    split
    · split
      · rw [Option.map_map]
        rfl
      · rfl
    · rfl
  | message text =>
    simp only [Action.inert] at ha
    cases hd : dispatch codec text with
    | response i =>
      simp only [step, onMessage, hd, handleResponse_hearing]
      cases handleResponse s i text <;> rfl
    | _ => simp [hd] at ha
  | setNotificationHandler present => cases ha

/-- A notification, or any message that answers no request, is nothing to the callers. -/
theorem step_inert (ha : a.inert codec = true) (h : step codec s a = some s') :
    s'.unheard = s.unheard := by
  cases a with
  | message text =>
    simp only [Action.inert] at ha
    simp only [step, onMessage] at h
    cases hd : dispatch codec text with
    | response i => simp [hd] at ha
    | notification =>
      simp only [hd, Option.some.injEq] at h
      subst h
      simp only [handleNotification]
      split_ifs <;> rfl
    | _ =>
      simp only [hd, Option.some.injEq] at h
      exact h ▸ rfl
  | setNotificationHandler present =>
    obtain rfl := Option.some.inj h
    rfl
  | _ => cases ha

theorem run_unheard (h : Run (step codec) s tr s') :
    Run (step codec) s.unheard (tr.filter fun a ↦ !a.inert codec) s'.unheard := by
  induction h with
  | nil => exact .nil
  | @snoc tr s' s'' a _ hs ih =>
    rw [List.filter_append]
    cases ha : a.inert codec with
    | true =>
      rw [step_inert ha hs]
      simpa [ha] using ih
    | false =>
      have hs' : step codec s'.unheard a = some s''.unheard := by
        rw [State.unheard, step_hearing false [] ha, hs]
        rfl
      simpa [ha] using ih.snoc hs'

theorem step_hears (ha : a.inert codec = false) (h : step codec s a = some s') :
    s'.notifications = s.notifications ∧ s'.notificationHandler = s.notificationHandler := by
  have hsame := step_hearing (s := s) s.notificationHandler s.notifications ha
  rw [show s.hearing s.notificationHandler s.notifications = s from rfl, h] at hsame
  have hs' : s' = s'.hearing s.notificationHandler s.notifications := Option.some.inj hsame
  rw [hs']
  exact ⟨rfl, rfl⟩

theorem heard_other {text : String} {rest : List Action}
    (hd : dispatch codec text ≠ .notification) :
    heard codec present (.message text :: rest) = heard codec present rest := by
  rw [heard, if_neg fun h ↦ hd h.1]

/-- What has been heard, with what will be heard, does not change. -/
theorem step_heard (h : step codec s a = some s') (rest : List Action) :
    s'.notifications ++ heard codec s'.notificationHandler rest =
      s.notifications ++ heard codec s.notificationHandler (a :: rest) := by
  cases ha : a.inert codec with
  | false =>
    obtain ⟨hnotifications, hhandler⟩ := step_hears ha h
    rw [hnotifications, hhandler]
    cases a with
    | message text =>
      rw [heard_other]
      intro hd
      simp [Action.inert, hd] at ha
    | setNotificationHandler present => cases ha
    | _ => rfl
  | true =>
    cases a with
    | message text =>
      simp only [step, onMessage] at h
      cases hd : dispatch codec text with
      | response i => simp [Action.inert, hd] at ha
      | notification =>
        simp only [hd, Option.some.injEq] at h
        subst h
        cases hvalid : Notification.isValid codec (codec.parseMessage text) <;>
          cases hpresent : s.notificationHandler <;>
          simp [handleNotification, heard, hd, hvalid, hpresent]
      | _ =>
        simp only [hd, Option.some.injEq] at h
        subst h
        rw [heard_other (by simp [hd])]
    | setNotificationHandler present =>
      obtain rfl := Option.some.inj h
      rfl
    | _ => cases ha

theorem run_heard (h : Run (step codec) s tr s') (rest : List Action) :
    s'.notifications ++ heard codec s'.notificationHandler rest =
      s.notifications ++ heard codec s.notificationHandler (tr ++ rest) := by
  induction h generalizing rest with
  | nil => rfl
  | @snoc tr s' s'' a _ hs ih => rw [step_heard hs, ih, List.append_assoc, List.singleton_append]

theorem heard_valid {notif : Message} (h : notif ∈ heard codec present tr) :
    Notification.isValid codec notif = true := by
  induction tr generalizing present with
  | nil => cases h
  | cons a tr ih =>
    cases a with
    | message text =>
      rw [heard] at h
      split at h
      · rename_i hcond
        rcases List.mem_cons.mp h with rfl | h
        · exact hcond.2.1
        · exact ih h
      · exact ih h
    | setNotificationHandler present' => exact ih h
    | _ => exact ih h

structure Separated (codec : Codec) (tr : List Action) (s : State) : Prop where
  delivered : s.notifications = heard codec false tr
  valid : ∀ notif ∈ s.notifications, notif.id.isSet = false ∧ (codec.method notif).isEmpty = false
  unaffected : Run (step codec) State.init (tr.filter fun a ↦ !a.inert codec) s.unheard

/-- The handler is called once for each valid notification that comes while it is set,
in their order, and the requests end as they would without the notifications. -/
theorem notifications_separated (h : Run (step codec) State.init tr s) :
    Separated codec tr s := by
  have hheard : s.notifications = heard codec false tr := by
    simpa [heard, State.init] using run_heard h []
  refine ⟨hheard, ?_, run_unheard h⟩
  intro notif hmem
  rw [hheard] at hmem
  have hvalid := heard_valid hmem
  simp only [Notification.isValid] at hvalid
  split at hvalid
  · cases hvalid
  · split at hvalid
    · cases hvalid
    · rename_i hmethod
      exact ⟨by simpa using hvalid, by simpa using hmethod⟩

def sampleEvent : String := "\x7b\"jsonrpc\":\"2.0\",\"method\":\"onEvent\"\x7d"

def eventCodec : Codec :=
  { sampleCodec with
    parseObject := fun text ↦
      if text = sampleEvent then
        (true, [("jsonrpc", .ofString "2.0"), ("method", .ofString "onEvent")])
      else sampleCodec.parseObject text
    parseMessage := fun text ↦
      if text = sampleEvent then { sampleCodec.blank with designator := .assign "onEvent" }
      else sampleCodec.parseMessage text
    method := fun m ↦ m.designator.value }

/-- An event before there is a handler, and one while a request is pending. -/
def eventsBetween : List Action :=
  [.message sampleEvent, .setNotificationHandler true, .create 0 "ping" [], .check 0,
    .register 0 1, .message sampleEvent, .send 0 false, .message sampleReply]

theorem notifications_separated_eventsBetween :
    ∃ s, Run (step eventCodec) State.init eventsBetween s ∧
      Separated eventCodec eventsBetween s := by
  obtain ⟨s, hs⟩ : ∃ s, Run (step eventCodec) State.init eventsBetween s :=
    exists_run (by decide +kernel)
  exact ⟨s, hs, notifications_separated hs⟩

end Peripherals.WebSockets.JsonRpcInterface
