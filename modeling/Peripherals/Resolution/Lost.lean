import Peripherals.Resolution

/-! Tables with entries whose references are lost. -/

namespace Peripherals.Resolution

variable {N V : Type*} {entries : N → List (Entry N V)} {n m : N} {f : N → Option (Option V)}
  {l p q : List (Entry N V)} {r : Option V} {v : V} {fuel : ℕ}

section Leads

def AllDead (entries : N → List (Entry N V)) (l : List (Entry N V)) : Prop :=
  ∀ e ∈ l, ∃ m, e = .reference m ∧ Dead entries m

/-- The first entry that is no reference to a dead name gives the value, or refers to
a name that leads to it. -/
inductive Leads (entries : N → List (Entry N V)) : N → V → Prop
  | value {n : N} {v : V} {pre post : List (Entry N V)}
      (heq : entries n = pre ++ .value v :: post) (hdead : AllDead entries pre) :
      Leads entries n v
  | reference {n m : N} {v : V} {pre post : List (Entry N V)}
      (heq : entries n = pre ++ .reference m :: post) (hdead : AllDead entries pre)
      (hleads : Leads entries m v) : Leads entries n v

def Gives (entries : N → List (Entry N V)) (n : N) (r : Option V) : Prop :=
  ∃ fuel, resolve entries fuel n = some r

theorem Gives.unique {r' : Option V} (h : Gives entries n r) (h' : Gives entries n r') :
    r = r' := by
  obtain ⟨fuel, h⟩ := h
  obtain ⟨fuel', h'⟩ := h'
  exact resolve_unique h h'

theorem AllDead.skip (hp : AllDead entries p)
    (h : (tryEach (resolve entries fuel) (p ++ q)).isSome = true) :
    tryEach (resolve entries fuel) (p ++ q) = tryEach (resolve entries fuel) q := by
  apply tryEach_append ?_ ?_ h
  · intro v hv
    obtain ⟨m, hm, -⟩ := hp _ hv
    cases hm
  · intro m hm r hr
    obtain ⟨k, hk, hdead⟩ := hp _ hm
    cases hk
    exact resolve_of_dead hdead hr

theorem Leads.resolve_eq (h : Leads entries n v) (hr : resolve entries fuel n = some r) :
    r = some v := by
  induction h generalizing fuel r with
  | value heq hdead =>
    cases fuel with
    | zero => cases hr
    | succ fuel =>
      rw [resolve, heq] at hr
      rw [hdead.skip (by simp [hr])] at hr
      exact (Option.some.inj hr).symm
  | @reference n m v _ _ heq hdead _ ih =>
    cases fuel with
    | zero => cases hr
    | succ fuel =>
      rw [resolve, heq] at hr
      rw [hdead.skip (by simp [hr]), tryEach] at hr
      cases hm : resolve entries fuel m with
      | none => simp [hm] at hr
      | some r' =>
        rw [ih hm] at hm
        rw [hm] at hr
        exact (Option.some.inj hr).symm

theorem leads_of_resolve (h : resolve entries fuel n = some (some v)) : Leads entries n v := by
  induction fuel generalizing n with
  | zero => cases h
  | succ fuel ih =>
    obtain ⟨pre, e, post, heq, hpre, he⟩ := tryEach_split h
    have hdead : AllDead entries pre := by
      intro e he
      obtain ⟨m, rfl, hm⟩ := hpre e he
      exact ⟨m, rfl, dead_of_resolve hm⟩
    rcases he with rfl | ⟨m, rfl, hm⟩
    · exact .value heq hdead
    · exact .reference heq hdead (ih hm)

end Leads

section Lost

variable {ended : N → List (Entry N V)} {last : N → Option (Entry N V)} {mark : N → N}
  {names : N → Prop} {lost : N → List (Entry N V)}

def Entry.value? : Entry N V → Option V
  | .value v => some v
  | .reference _ => none

def Entry.lose (mark : N → N) : Entry N V → Entry N V
  | .value v => .value v
  | .reference m => .reference (mark m)

def firstValue (l : List (Entry N V)) : Option V := l.findSome? Entry.value?

/-- The entries of a name; the one at the end stands apart. -/
def whole (ended : N → List (Entry N V)) (last : N → Option (Entry N V)) (n : N) :
    List (Entry N V) := ended n ++ (last n).toList

/-- The references in all entries but the ones at the end are turned into references
to names without an entry. -/
structure Loses (ended : N → List (Entry N V)) (last : N → Option (Entry N V)) (mark : N → N)
    (names : N → Prop) (lost : N → List (Entry N V)) : Prop where
  eq : ∀ n, names n → lost n = (ended n).map (Entry.lose mark) ++ (last n).toList
  nothing : ∀ n, names n → lost (mark n) = []
  closed : ∀ n m, names n → .reference m ∈ whole ended last n → names m

/-- What the entries of a name say if no reference is followed but the ones at the end. -/
inductive Says (ended : N → List (Entry N V)) (last : N → Option (Entry N V)) : N → V → Prop
  | value {n : N} {v : V} (h : firstValue (whole ended last n) = some v) : Says ended last n v
  | last {n m : N} {v : V} (hnone : firstValue (ended n) = none)
      (hlast : last n = some (.reference m)) (h : Says ended last m v) : Says ended last n v

/-- The entries of a name have the same meaning without the references that are lost. -/
inductive Unaffected (ended : N → List (Entry N V)) (last : N → Option (Entry N V)) : N → Prop
  | nothing {n : N} (hdead : Dead (whole ended last) n) : Unaffected ended last n
  | value {n : N} {v : V} {pre post : List (Entry N V)}
      (heq : whole ended last n = pre ++ .value v :: post)
      (hdead : AllDead (whole ended last) pre) : Unaffected ended last n
  | last {n m : N} (hdead : AllDead (whole ended last) (ended n))
      (hlast : last n = some (.reference m)) (h : Unaffected ended last m) :
      Unaffected ended last n
  | same {n m : N} {v : V} {pre post : List (Entry N V)}
      (heq : ended n = pre ++ .reference m :: post) (hdead : AllDead (whole ended last) pre)
      (hleads : Leads (whole ended last) m v) (hsaid : Says ended last n v) :
      Unaffected ended last n

theorem firstValue_append : firstValue (p ++ q) = (firstValue p).or (firstValue q) :=
  List.findSome?_append

theorem AllDead.firstValue (h : AllDead entries p) : firstValue p = none := by
  rw [Resolution.firstValue, List.findSome?_eq_none_iff]
  intro e he
  obtain ⟨m, rfl, -⟩ := h e he
  rfl

/-- References to names without an entry are passed over. -/
theorem tryEach_lose (hf : ∀ m, .reference m ∈ l → f (mark m) = some none) :
    tryEach f (l.map (Entry.lose mark) ++ q) =
      (firstValue l).elim (tryEach f q) fun v ↦ some (some v) := by
  induction l with
  | nil => rfl
  | cons e l ih =>
    cases e with
    | value v => rfl
    | reference m =>
      have hrest := ih fun k hk ↦ hf k (List.mem_cons_of_mem _ hk)
      rw [List.map_cons, List.cons_append, Entry.lose, tryEach, hf m List.mem_cons_self]
      exact hrest

theorem Loses.resolve_eq (h : Loses ended last mark names lost) (hn : names n) (fuel : ℕ) :
    resolve lost (fuel + 2) n = (firstValue (ended n)).elim
      (tryEach (resolve lost (fuel + 1)) (last n).toList) fun v ↦ some (some v) := by
  rw [resolve, h.eq n hn]
  apply tryEach_lose
  intro m hm
  rw [resolve, h.nothing m (h.closed n m hn (List.mem_append_left _ hm))]
  rfl

theorem Loses.gives_of_firstValue (h : Loses ended last mark names lost) (hn : names n)
    (hv : firstValue (ended n) = some v) : Gives lost n (some v) :=
  ⟨2, by rw [h.resolve_eq hn 0, hv]; rfl⟩

/-- With no value before it the entry at the end decides. -/
theorem Loses.gives_iff (h : Loses ended last mark names lost) (hn : names n)
    (hnone : firstValue (ended n) = none) :
    Gives lost n r ↔ ∃ fuel, tryEach (resolve lost fuel) (last n).toList = some r := by
  have hresolve (fuel : ℕ) : resolve lost (fuel + 2) n =
      tryEach (resolve lost (fuel + 1)) (last n).toList := by
    rw [h.resolve_eq hn fuel, hnone]
    rfl
  refine ⟨?_, ?_⟩
  · intro hgives
    obtain ⟨fuel, hfuel⟩ := hgives
    exact ⟨fuel + 1, (hresolve fuel).symm.trans (resolve_mono (by omega) hfuel)⟩
  · intro htry
    obtain ⟨fuel, hfuel⟩ := htry
    refine ⟨fuel + 2, (hresolve fuel).trans ?_⟩
    exact tryEach_mono (fun n r hr ↦ resolve_mono (Nat.le_succ fuel) hr) hfuel

theorem Loses.gives_reference (h : Loses ended last mark names lost) (hn : names n)
    (hnone : firstValue (ended n) = none) (hlast : last n = some (.reference m)) :
    Gives lost n r ↔ Gives lost m r := by
  rw [h.gives_iff hn hnone, hlast]
  refine exists_congr fun fuel ↦ ?_
  rw [Option.toList_some, tryEach]
  rcases resolve lost fuel m with _ | _ | v <;> rfl

theorem Loses.allDead (h : Loses ended last mark names lost) (hn : names n)
    (hnone : firstValue (ended n) = none) :
    AllDead lost ((ended n).map (Entry.lose mark)) := by
  intro e he
  obtain ⟨e, hmem, rfl⟩ := List.mem_map.mp he
  cases e with
  | value v => cases List.findSome?_eq_none_iff.mp hnone _ hmem
  | reference m =>
    have hempty := h.nothing m (h.closed n m hn (List.mem_append_left _ hmem))
    exact ⟨mark m, rfl, .intro (by simp [hempty]) (by simp [hempty])⟩

theorem Loses.says_of_resolve (h : Loses ended last mark names lost) (hn : names n)
    (hv : resolve lost fuel n = some (some v)) : Says ended last n v := by
  induction fuel generalizing n with
  | zero => cases hv
  | succ fuel ih =>
    cases hfirst : firstValue (ended n) with
    | some w =>
      obtain rfl : v = w := Option.some.inj (Gives.unique ⟨_, hv⟩ (h.gives_of_firstValue hn hfirst))
      exact .value (by rw [whole, firstValue_append, hfirst]; rfl)
    | none =>
      rw [resolve, h.eq n hn] at hv
      rw [(h.allDead hn hfirst).skip (by simp [hv])] at hv
      rcases hlast : last n with _ | m | w
      · rw [hlast] at hv
        cases Option.some.inj hv
      · rw [hlast, Option.toList_some, tryEach] at hv
        rcases hm : resolve lost fuel m with _ | _ | w
        · simp [hm] at hv
        · rw [hm] at hv
          cases Option.some.inj hv
        · rw [hm] at hv
          obtain rfl : w = v := Option.some.inj (Option.some.inj hv)
          exact .last hfirst hlast (ih (h.closed n m hn (by simp [whole, hlast])) hm)
      · rw [hlast] at hv
        obtain rfl : w = v := Option.some.inj (Option.some.inj hv)
        exact .value (by rw [whole, firstValue_append, hfirst, hlast]; rfl)

theorem Loses.says_iff (h : Loses ended last mark names lost) (hn : names n) :
    Gives lost n (some v) ↔ Says ended last n v := by
  refine ⟨?_, ?_⟩
  · intro hgives
    obtain ⟨fuel, hv⟩ := hgives
    exact h.says_of_resolve hn hv
  · intro hsaid
    induction hsaid with
    | @value n v hv =>
      rw [whole, firstValue_append] at hv
      cases hfirst : firstValue (ended n) with
      | some w =>
        obtain rfl : w = v := by simpa [hfirst] using hv
        exact h.gives_of_firstValue hn hfirst
      | none =>
        refine (h.gives_iff hn hfirst).mpr ⟨0, ?_⟩
        rw [hfirst, Option.none_or] at hv
        rcases hlast : last n with _ | m | w
        · rw [hlast] at hv
          cases hv
        · rw [hlast] at hv
          cases hv
        · rw [hlast] at hv
          obtain rfl : w = v := Option.some.inj hv
          rfl
    | @last n m v hnone hlast _ ih =>
      exact (h.gives_reference hn hnone hlast).mpr (ih (h.closed n m hn (by simp [whole, hlast])))

theorem Loses.gives_of_dead (h : Loses ended last mark names lost) (hn : names n)
    (hdead : Dead (whole ended last) n) : Gives lost n none := by
  induction hdead with
  | @intro n hvalue _ ih =>
    have hnone : firstValue (ended n) = none := by
      rw [firstValue, List.findSome?_eq_none_iff]
      intro e he
      cases e with
      | value v => exact (hvalue v (List.mem_append_left _ he)).elim
      | reference m => rfl
    rcases hlast : last n with _ | m | v
    · exact (h.gives_iff hn hnone).mpr ⟨0, by rw [hlast]; rfl⟩
    · have hm : .reference m ∈ whole ended last n := by simp [whole, hlast]
      exact (h.gives_reference hn hnone hlast).mpr (ih m hm (h.closed n m hn hm))
    · exact (hvalue v (by simp [whole, hlast])).elim

theorem whole_eq_reference (heq : whole ended last n = p ++ .reference m :: q) :
    (∃ rest, ended n = p ++ .reference m :: rest) ∨
      (ended n = p ∧ last n = some (.reference m)) := by
  have hlast (as : List (Entry N V)) (has : (last n).toList = as ++ .reference m :: q) :
      as = [] ∧ last n = some (.reference m) := by
    rcases hn : last n with _ | e
    · simp [hn] at has
    · rw [hn, Option.toList_some] at has
      obtain ⟨rfl, rfl, -⟩ : as = [] ∧ .reference m = e ∧ q = [] := by
        simpa [List.singleton_eq_append_iff] using has
      exact ⟨rfl, rfl⟩
  rcases List.append_eq_append_iff.mp heq with ⟨as, hp, has⟩ | ⟨bs, hended, hbs⟩
  · obtain ⟨rfl, hm⟩ := hlast as has
    exact .inr ⟨by rw [hp, List.append_nil], hm⟩
  · cases bs with
    | nil =>
      obtain ⟨-, hm⟩ := hlast [] hbs.symm
      exact .inr ⟨by rw [hended, List.append_nil], hm⟩
    | cons b bs =>
      obtain ⟨rfl, -⟩ := List.cons.inj hbs
      exact .inl ⟨bs, hended⟩

theorem Loses.unaffected_of_leads (h : Loses ended last mark names lost) (hn : names n)
    (hleads : Leads (whole ended last) n v) (hlost : Gives lost n (some v)) :
    Unaffected ended last n := by
  induction hleads with
  | value heq hdead => exact .value heq hdead
  | @reference n m v pre post heq hdead hm ih =>
    rcases whole_eq_reference heq with ⟨rest, hended⟩ | ⟨rfl, hlast⟩
    · exact .same hended hdead hm ((h.says_iff hn).mp hlost)
    · have hgives := (h.gives_reference hn hdead.firstValue hlast).mp hlost
      exact .last hdead hlast (ih (h.closed n m hn (by simp [whole, hlast])) hgives)

theorem Loses.gives_of_unaffected (h : Loses ended last mark names lost) (hn : names n)
    (hunaffected : Unaffected ended last n) (hgives : Gives (whole ended last) n r) :
    Gives lost n r := by
  induction hunaffected with
  | nothing hdead =>
    obtain ⟨fuel, hr⟩ := hgives
    rw [resolve_of_dead hdead hr]
    exact h.gives_of_dead hn hdead
  | @value n v pre post heq hdead =>
    obtain ⟨fuel, hr⟩ := hgives
    rw [(Leads.value heq hdead).resolve_eq hr, h.says_iff hn]
    exact .value (by rw [heq, firstValue_append, hdead.firstValue]; rfl)
  | @last n m hdead hlast _ ih =>
    obtain ⟨fuel, hr⟩ := hgives
    cases fuel with
    | zero => cases hr
    | succ fuel =>
      have hm : Gives (whole ended last) m r := by
        rw [resolve, whole] at hr
        rw [hdead.skip (by simp [hr]), hlast, Option.toList_some, tryEach] at hr
        refine ⟨fuel, ?_⟩
        rcases hm : resolve (whole ended last) fuel m with _ | _ | v
        · simp [hm] at hr
        · rwa [hm] at hr
        · rwa [hm] at hr
      exact (h.gives_reference hn hdead.firstValue hlast).mpr
        (ih (h.closed n m hn (by simp [whole, hlast])) hm)
  | @same n m v pre post heq hdead hleads hsaid =>
    obtain ⟨fuel, hr⟩ := hgives
    have hwhole : whole ended last n = pre ++ .reference m :: (post ++ (last n).toList) := by
      rw [whole, heq, List.append_assoc, List.cons_append]
    rw [(Leads.reference hwhole hdead hleads).resolve_eq hr]
    exact (h.says_iff hn).mpr hsaid

/-- The result for a name stays if and only if the lost references are not needed. -/
theorem Loses.gives_iff_unaffected (h : Loses ended last mark names lost) (hn : names n)
    (hgives : Gives (whole ended last) n r) : Gives lost n r ↔ Unaffected ended last n := by
  refine ⟨?_, fun hunaffected ↦ h.gives_of_unaffected hn hunaffected hgives⟩
  intro hlost
  obtain ⟨fuel, hr⟩ := hgives
  cases r with
  | none => exact .nothing (dead_of_resolve hr)
  | some v => exact h.unaffected_of_leads hn (leads_of_resolve hr) hlost

end Lost

end Peripherals.Resolution
