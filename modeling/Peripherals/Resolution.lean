import Mathlib.Data.Fintype.Card
import Mathlib.Data.Set.Finite.Basic
import Mathlib.Logic.Relation

namespace Peripherals.Resolution

open Function Relation

section Acyclic

variable {A : Type*} {r : A → A → Prop} {a b : A}

theorem acc_of_reflTransGen (h : Acc (swap r) a) (hab : ReflTransGen r a b) : Acc (swap r) b := by
  induction hab with
  | refl => exact h
  | tail _ hbc ih => exact ih.inv hbc

theorem not_transGen_self (h : Acc (swap r) a) : ¬ TransGen r a a := by
  intro hcycle
  have hself : TransGen (swap r) a a := transGen_swap.mpr hcycle
  have hacc := h.transGen
  clear h hcycle
  induction hacc with
  | intro a _ ih => exact ih a hself hself

/-- In a finite graph the walks from a node end if and only if they meet no cycle. -/
theorem acc_iff_acyclic {s : Set A} (hs : s.Finite) (hr : ∀ a b, r a b → b ∈ s) :
    Acc (swap r) a ↔ ∀ b, ReflTransGen r a b → ¬ TransGen r b b := by
  refine ⟨fun h b hab ↦ not_transGen_self (acc_of_reflTransGen h hab), ?_⟩
  intro hacyclic
  have hfinite : { b | ReflTransGen r a b }.Finite := by
    apply (hs.insert a).subset
    intro b hab
    rcases hab.cases_tail with rfl | ⟨c, -, hcb⟩
    · exact Set.mem_insert _ s
    · exact Set.mem_insert_of_mem a (hr c b hcb)
  have hwf : WellFounded fun b c : { b | ReflTransGen r a b } ↦ TransGen r c.1 b.1 := by
    have := hfinite.to_subtype
    have : IsTrans { b | ReflTransGen r a b } fun b c ↦ TransGen r c.1 b.1 :=
      ⟨fun _ _ _ hbc hcd ↦ hcd.trans hbc⟩
    have : Std.Irrefl fun b c : { b | ReflTransGen r a b } ↦ TransGen r c.1 b.1 :=
      ⟨fun b ↦ hacyclic b.1 b.2⟩
    exact Finite.wellFounded_of_trans_of_irrefl _
  have hacc (b : { b | ReflTransGen r a b }) : Acc (swap r) b.1 := by
    induction b using hwf.induction with
    | _ b ih => exact ⟨b.1, fun c hbc ↦ ih ⟨c, b.2.tail hbc⟩ (.single hbc)⟩
  exact hacc ⟨a, .refl⟩

end Acyclic

/-- A line of a table: a name stands for what another one stands for, or for a value. -/
inductive Entry (N V : Type*)
  | reference (n : N)
  | value (v : V)

variable {N V : Type*}

/-- The first entry that gives a value, where `resolve` is asked for the references. -/
def tryEach (resolve : N → Option (Option V)) : List (Entry N V) → Option (Option V)
  | [] => some none
  | .value v :: _ => some (some v)
  | .reference n :: rest =>
    match resolve n with
    | none => none
    | some (some v) => some (some v)
    | some none => tryEach resolve rest

/-- The value of a name, `some none` if it has none; `none` where the calls nest
deeper than `fuel`. -/
def resolve (entries : N → List (Entry N V)) : ℕ → N → Option (Option V)
  | 0, _ => none
  | fuel + 1, n => tryEach (resolve entries fuel) (entries n)

def Ends (entries : N → List (Entry N V)) (n : N) : Prop :=
  ∃ fuel, (resolve entries fuel n).isSome = true

/-- A name all of whose chains of references end in names without an entry. -/
inductive Dead (entries : N → List (Entry N V)) : N → Prop
  | intro {n : N} (hvalue : ∀ v, .value v ∉ entries n)
      (hreference : ∀ m, .reference m ∈ entries n → Dead entries m) : Dead entries n

/-- `m` is asked for by `n`: what `n` has before it are references to dead names. -/
def Tried (entries : N → List (Entry N V)) (n m : N) : Prop :=
  ∃ pre post, entries n = pre ++ .reference m :: post ∧ (∀ v, .value v ∉ pre) ∧
    ∀ k, .reference k ∈ pre → Dead entries k

variable {entries : N → List (Entry N V)} {n m : N} {f g : N → Option (Option V)}
  {l p q : List (Entry N V)} {r r' : Option V} {fuel fuel' : ℕ}

theorem tryEach_mono (h : ∀ n r, f n = some r → g n = some r) (hl : tryEach f l = some r) :
    tryEach g l = some r := by
  induction l with
  | nil => exact hl
  | cons e l ih =>
    cases e with
    | value v => exact hl
    | reference n =>
      rw [tryEach] at hl ⊢
      cases hn : f n with
      | none => simp [hn] at hl
      | some s =>
        rw [hn] at hl
        rw [h n s hn]
        cases s with
        | none => exact ih hl
        | some v => exact hl

theorem resolve_succ (h : resolve entries fuel n = some r) :
    resolve entries (fuel + 1) n = some r := by
  induction fuel generalizing n r with
  | zero => cases h
  | succ fuel ih => exact tryEach_mono (fun _ _ ↦ ih) h

theorem resolve_mono (hle : fuel ≤ fuel') (h : resolve entries fuel n = some r) :
    resolve entries fuel' n = some r := by
  induction hle with
  | refl => exact h
  | step _ ih => exact resolve_succ ih

theorem resolve_unique (h : resolve entries fuel n = some r)
    (h' : resolve entries fuel' n = some r') : r = r' := by
  rcases Nat.le_total fuel fuel' with hle | hle
  · exact Option.some.inj ((resolve_mono hle h).symm.trans h')
  · exact Option.some.inj (h.symm.trans (resolve_mono hle h'))

/-- Before the entry that decides are only references that give nothing. -/
theorem tryEach_split {v : V} (h : tryEach f l = some (some v)) :
    ∃ pre e post, l = pre ++ e :: post ∧
      (∀ e ∈ pre, ∃ m, e = .reference m ∧ f m = some none) ∧
        (e = .value v ∨ ∃ m, e = .reference m ∧ f m = some (some v)) := by
  induction l with
  | nil => cases Option.some.inj h
  | cons e l ih =>
    cases e with
    | value w =>
      obtain rfl : w = v := Option.some.inj (Option.some.inj h)
      exact ⟨[], .value w, l, rfl, by simp, .inl rfl⟩
    | reference n =>
      rw [tryEach] at h
      rcases hn : f n with _ | _ | w
      · simp [hn] at h
      · rw [hn] at h
        obtain ⟨pre, e, post, rfl, hpre, he⟩ := ih h
        exact ⟨.reference n :: pre, e, post, rfl,
          List.forall_mem_cons.mpr ⟨⟨n, rfl, hn⟩, hpre⟩, he⟩
      · rw [hn] at h
        obtain rfl : w = v := Option.some.inj (Option.some.inj h)
        exact ⟨[], .reference n, l, rfl, by simp, .inr ⟨n, rfl, hn⟩⟩

theorem tryEach_eq_some {v : V} (h : tryEach f l = some (some v)) :
    .value v ∈ l ∨ ∃ m, .reference m ∈ l ∧ f m = some (some v) := by
  obtain ⟨pre, e, post, rfl, -, he⟩ := tryEach_split h
  have hmem : e ∈ pre ++ e :: post := List.mem_append_right _ List.mem_cons_self
  rcases he with rfl | ⟨m, rfl, hm⟩
  · exact .inl hmem
  · exact .inr ⟨m, hmem, hm⟩

theorem tryEach_eq_none (h : tryEach f l = some none) :
    (∀ v, .value v ∉ l) ∧ ∀ m, .reference m ∈ l → f m = some none := by
  induction l with
  | nil => simp
  | cons e l ih =>
    cases e with
    | value v => cases Option.some.inj h
    | reference n =>
      rw [tryEach] at h
      rcases hn : f n with _ | _ | v
      · simp [hn] at h
      · rw [hn] at h
        obtain ⟨hvalue, hreference⟩ := ih h
        refine ⟨by simpa using hvalue, ?_⟩
        intro m hm
        rcases List.mem_cons.mp hm with heq | hm
        · cases heq
          exact hn
        · exact hreference m hm
      · simp [hn] at h

/-- What is found stands in the table, at the end of a chain of references. -/
theorem reaches_of_resolve {v : V} (h : resolve entries fuel n = some (some v)) :
    ∃ m, ReflTransGen (fun a b ↦ .reference b ∈ entries a) n m ∧ .value v ∈ entries m := by
  induction fuel generalizing n with
  | zero => cases h
  | succ fuel ih =>
    rcases tryEach_eq_some h with hv | ⟨m, hm, hfm⟩
    · exact ⟨n, .refl, hv⟩
    · obtain ⟨last, hchain, hv⟩ := ih hfm
      exact ⟨last, hchain.head hm, hv⟩

theorem dead_of_resolve (h : resolve entries fuel n = some none) : Dead entries n := by
  induction fuel generalizing n with
  | zero => cases h
  | succ fuel ih =>
    obtain ⟨hvalue, hreference⟩ := tryEach_eq_none h
    exact ⟨hvalue, fun m hm ↦ ih (hreference m hm)⟩

/-- References that give nothing are passed over. -/
theorem tryEach_append (hvalue : ∀ v, .value v ∉ p)
    (hreference : ∀ m, .reference m ∈ p → ∀ r, f m = some r → r = none)
    (h : (tryEach f (p ++ q)).isSome = true) : tryEach f (p ++ q) = tryEach f q := by
  induction p with
  | nil => rfl
  | cons e p ih =>
    cases e with
    | value v => exact (hvalue v List.mem_cons_self).elim
    | reference n =>
      rw [List.cons_append, tryEach] at h ⊢
      rcases hn : f n with _ | _ | v
      · simp [hn] at h
      · rw [hn] at h
        exact ih (fun v hv ↦ hvalue v (List.mem_cons_of_mem _ hv))
          (fun m hm ↦ hreference m (List.mem_cons_of_mem _ hm)) h
      · cases hreference n List.mem_cons_self (some v) hn

theorem resolve_of_dead (hdead : Dead entries n) (h : resolve entries fuel n = some r) :
    r = none := by
  induction hdead generalizing fuel r with
  | @intro n hvalue _ ih =>
    cases fuel with
    | zero => cases h
    | succ fuel =>
      have hskip := tryEach_append (f := resolve entries fuel) (q := []) hvalue
        (fun m hm r ↦ ih m hm)
      rw [List.append_nil] at hskip
      have hnone := hskip (by rw [← resolve, h]; rfl)
      exact Option.some.inj (h.symm.trans hnone)

theorem tried_isSome (h : (resolve entries (fuel + 1) n).isSome = true)
    (htried : Tried entries n m) : (resolve entries fuel m).isSome = true := by
  obtain ⟨p, q, hentries, hvalue, hreference⟩ := htried
  rw [resolve, hentries] at h
  have hskip := tryEach_append hvalue (fun k hk r ↦ resolve_of_dead (hreference k hk)) h
  rw [hskip, tryEach] at h
  cases hm : resolve entries fuel m with
  | none => simp [hm] at h
  | some r => rfl

theorem acc_of_isSome (h : (resolve entries fuel n).isSome = true) :
    Acc (swap (Tried entries)) n := by
  induction fuel generalizing n with
  | zero => cases h
  | succ fuel ih => exact ⟨n, fun m hm ↦ ih (tried_isSome h hm)⟩

theorem exists_tryEach (hends : ∀ m, Tried entries n m → Ends entries m)
    (hentries : entries n = p ++ q) (hvalue : ∀ v, .value v ∉ p)
    (hreference : ∀ m, .reference m ∈ p → Dead entries m) :
    ∃ fuel, (tryEach (resolve entries fuel) q).isSome = true := by
  induction q generalizing p with
  | nil => exact ⟨0, rfl⟩
  | cons e q ih =>
    cases e with
    | value v => exact ⟨0, rfl⟩
    | reference m =>
      obtain ⟨fuel, hm⟩ := hends m ⟨p, q, hentries, hvalue, hreference⟩
      obtain ⟨r, hr⟩ := Option.isSome_iff_exists.mp hm
      cases r with
      | some v => exact ⟨fuel, by simp [tryEach, hr]⟩
      | none =>
        obtain ⟨fuel', hrest⟩ := ih (p := p ++ [.reference m]) (by simp [hentries])
          (by simpa using hvalue) (by
            intro k hk
            rcases List.mem_append.mp hk with hk | hk
            · exact hreference k hk
            · cases List.mem_singleton.mp hk
              exact dead_of_resolve hr)
        obtain ⟨r, hr'⟩ := Option.isSome_iff_exists.mp hrest
        refine ⟨max fuel fuel', ?_⟩
        rw [tryEach, resolve_mono (Nat.le_max_left fuel fuel') hr]
        have hmono := tryEach_mono (fun k s ↦ resolve_mono (Nat.le_max_right fuel fuel')) hr'
        simp [hmono]

theorem ends_of_acc (h : Acc (swap (Tried entries)) n) : Ends entries n := by
  induction h with
  | intro n _ ih =>
    obtain ⟨fuel, hn⟩ := exists_tryEach ih (List.nil_append (entries n)).symm (by simp) (by simp)
    exact ⟨fuel + 1, hn⟩

/-- Over a finite table the search for a name ends if and only if no chain of
names asked for from it comes to one twice. -/
theorem ends_iff_acyclic {names : Set N} (hnames : names.Finite)
    (hentries : ∀ n m, .reference m ∈ entries n → m ∈ names) (n : N) :
    Ends entries n ↔
      ∀ m, ReflTransGen (Tried entries) n m → ¬ TransGen (Tried entries) m m := by
  have hacc : Ends entries n ↔ Acc (swap (Tried entries)) n := by
    refine ⟨?_, ends_of_acc⟩
    intro h
    obtain ⟨fuel, hn⟩ := h
    exact acc_of_isSome hn
  rw [hacc]
  apply acc_iff_acyclic hnames
  intro n m htried
  obtain ⟨p, q, heq, -⟩ := htried
  exact hentries n m (by simp [heq])

end Peripherals.Resolution
