import Mathlib.Data.List.Infix

/-! Patterns of single symbols and repeated symbols. -/

namespace Peripherals.Glob

variable {A B C : Type*}

/-- A symbol stands for one of the elements that it accepts, or for any number of them. -/
inductive Token (B : Type*)
  | one (b : B)
  | many (b : B)

def Token.symbol : Token B → B
  | .one b => b
  | .many b => b

def Token.map (f : B → C) : Token B → Token C
  | .one b => .one (f b)
  | .many b => .many (f b)

inductive Matches (accepts : B → A → Bool) : List (Token B) → List A → Prop
  | nil : Matches accepts [] []
  | one {b : B} {a : A} {p : List (Token B)} {l : List A} (ha : accepts b a = true)
      (h : Matches accepts p l) : Matches accepts (.one b :: p) (a :: l)
  | skip {b : B} {p : List (Token B)} {l : List A} (h : Matches accepts p l) :
      Matches accepts (.many b :: p) l
  | more {b : B} {a : A} {p : List (Token B)} {l : List A} (ha : accepts b a = true)
      (h : Matches accepts (.many b :: p) l) : Matches accepts (.many b :: p) (a :: l)

variable {accepts accepts' : B → A → Bool} {p q w : List (Token B)} {l l' : List A} {a : A} {b : B}
  {next : List A → Bool}

section Search

/-- Elements are taken in one by one, and after each of them the rest is tried. -/
def takeMany (f : A → Bool) (next : List A → Bool) : List A → Bool
  | [] => next []
  | a :: l => next (a :: l) || (f a && takeMany f next l)

def Token.run (accepts : B → A → Bool) (t : Token B) (next : List A → Bool) (l : List A) : Bool :=
  match t, l with
  | .one _, [] => false
  | .one b, a :: l => accepts b a && next l
  | .many b, l => takeMany (accepts b) next l

/-- The pattern is run on the beginning of a list, and `next` on what it leaves. -/
def run (accepts : B → A → Bool) (p : List (Token B)) (next : List A → Bool) : List A → Bool :=
  p.foldr (Token.run accepts) next

def search (accepts : B → A → Bool) (p : List (Token B)) (l : List A) : Bool :=
  l.tails.any (run accepts p fun _ ↦ true)

theorem takeMany_iff {f : A → Bool} : takeMany f next l = true ↔
    ∃ l₁ l₂, l = l₁ ++ l₂ ∧ (∀ a ∈ l₁, f a = true) ∧ next l₂ = true := by
  induction l with
  | nil => simp [takeMany]
  | cons a l ih =>
    rw [takeMany, Bool.or_eq_true, Bool.and_eq_true, ih]
    refine ⟨?_, ?_⟩
    · intro h
      rcases h with hnext | ⟨ha, l₁, l₂, rfl, hall, hnext⟩
      · exact ⟨[], a :: l, rfl, by simp, hnext⟩
      · exact ⟨a :: l₁, l₂, rfl, List.forall_mem_cons.mpr ⟨ha, hall⟩, hnext⟩
    · intro h
      obtain ⟨l₁, l₂, heq, hall, hnext⟩ := h
      cases l₁ with
      | nil => exact .inl (heq ▸ hnext)
      | cons c l₁ =>
        obtain ⟨rfl, rfl⟩ := List.cons.inj heq
        obtain ⟨ha, hall⟩ := List.forall_mem_cons.mp hall
        exact .inr ⟨ha, l₁, l₂, rfl, hall, hnext⟩

theorem matches_many_append (h : Matches accepts p l') (hall : ∀ a ∈ l, accepts b a = true) :
    Matches accepts (.many b :: p) (l ++ l') := by
  induction l with
  | nil => exact .skip h
  | cons a l ih =>
    obtain ⟨ha, hall⟩ := List.forall_mem_cons.mp hall
    exact .more ha (ih hall)

theorem matches_many_cons : Matches accepts (.many b :: p) l ↔
    ∃ l₁ l₂, l = l₁ ++ l₂ ∧ (∀ a ∈ l₁, accepts b a = true) ∧ Matches accepts p l₂ := by
  refine ⟨?_, ?_⟩
  · intro h
    induction l with
    | nil =>
      cases h with
      | skip h => exact ⟨[], [], rfl, by simp, h⟩
    | cons a l ih =>
      cases h with
      | skip h => exact ⟨[], a :: l, rfl, by simp, h⟩
      | more ha h =>
        obtain ⟨l₁, l₂, rfl, hall, hp⟩ := ih h
        exact ⟨a :: l₁, l₂, rfl, List.forall_mem_cons.mpr ⟨ha, hall⟩, hp⟩
  · intro h
    obtain ⟨l₁, l₂, rfl, hall, hp⟩ := h
    exact matches_many_append hp hall

theorem run_iff : run accepts p next l = true ↔
    ∃ l₁ l₂, l = l₁ ++ l₂ ∧ Matches accepts p l₁ ∧ next l₂ = true := by
  induction p generalizing l with
  | nil =>
    refine ⟨fun h ↦ ⟨[], l, rfl, .nil, h⟩, ?_⟩
    intro h
    obtain ⟨l₁, l₂, rfl, hmatch, hnext⟩ := h
    cases hmatch
    exact hnext
  | cons t p ih =>
    change t.run accepts (run accepts p next) l = true ↔ _
    cases t with
    | one b =>
      cases l with
      | nil =>
        refine iff_of_false Bool.false_ne_true ?_
        intro h
        obtain ⟨l₁, l₂, heq, hmatch, -⟩ := h
        obtain ⟨rfl, -⟩ := List.append_eq_nil_iff.mp heq.symm
        cases hmatch
      | cons a l =>
        rw [Token.run, Bool.and_eq_true, ih]
        refine ⟨?_, ?_⟩
        · intro h
          obtain ⟨ha, l₁, l₂, rfl, hmatch, hnext⟩ := h
          exact ⟨a :: l₁, l₂, rfl, .one ha hmatch, hnext⟩
        · intro h
          obtain ⟨l₁, l₂, heq, hmatch, hnext⟩ := h
          cases hmatch with
          | one ha hmatch =>
            obtain ⟨rfl, rfl⟩ := List.cons.inj heq
            exact ⟨ha, _, l₂, rfl, hmatch, hnext⟩
    | many b =>
      rw [Token.run, takeMany_iff]
      refine ⟨?_, ?_⟩
      · intro h
        obtain ⟨l₁, l₂, rfl, hall, hrun⟩ := h
        obtain ⟨l₃, l₄, rfl, hmatch, hnext⟩ := ih.mp hrun
        exact ⟨l₁ ++ l₃, l₄, (List.append_assoc _ _ _).symm, matches_many_append hmatch hall, hnext⟩
      · intro h
        obtain ⟨l₁, l₂, rfl, hmatch, hnext⟩ := h
        obtain ⟨l₃, l₄, rfl, hall, hp⟩ := matches_many_cons.mp hmatch
        exact ⟨l₃, l₄ ++ l₂, List.append_assoc _ _ _, hall, ih.mpr ⟨l₄, l₂, rfl, hp, hnext⟩⟩

instance : Decidable (Matches accepts p l) :=
  decidable_of_iff (run accepts p List.isEmpty l = true) (by simp [run_iff])

theorem search_iff : search accepts p l = true ↔ ∃ part, part <:+: l ∧ Matches accepts p part := by
  rw [search, List.any_eq_true]
  refine ⟨?_, ?_⟩
  · intro h
    obtain ⟨rest, hrest, hrun⟩ := h
    obtain ⟨part, after, rfl, hmatch, -⟩ := run_iff.mp hrun
    obtain ⟨before, rfl⟩ := (List.mem_tails _ _).mp hrest
    exact ⟨part, ⟨before, after, List.append_assoc _ _ _⟩, hmatch⟩
  · intro h
    obtain ⟨part, ⟨before, after, rfl⟩, hmatch⟩ := h
    refine ⟨part ++ after, ?_, run_iff.mpr ⟨part, after, rfl, hmatch, rfl⟩⟩
    exact (List.mem_tails _ _).mpr ⟨before, (List.append_assoc _ _ _).symm⟩

end Search

section Matches

theorem matches_map {f : C → B} {p : List (Token C)} :
    Matches accepts (p.map (Token.map f)) l ↔ Matches (accepts ∘ f) p l := by
  induction p generalizing l with
  | nil =>
    refine ⟨?_, ?_⟩
    · intro h
      cases h
      exact .nil
    · intro h
      cases h
      exact .nil
  | cons t p ih =>
    rw [List.map_cons]
    cases t with
    | one c =>
      refine ⟨?_, ?_⟩
      · intro h
        cases h with
        | one ha h => exact .one ha (ih.mp h)
      · intro h
        cases h with
        | one ha h => exact .one ha (ih.mpr h)
    | many c => simp only [Token.map, matches_many_cons, ih, Function.comp_apply]

/-- Only the symbols of the pattern and the elements of the list matter. -/
theorem Matches.mono (h : Matches accepts p l)
    (haccepts : ∀ t ∈ p, ∀ a ∈ l, accepts t.symbol a = true → accepts' t.symbol a = true) :
    Matches accepts' p l := by
  induction h with
  | nil => exact .nil
  | one ha _ ih =>
    refine .one (haccepts _ List.mem_cons_self _ List.mem_cons_self ha) (ih ?_)
    exact fun t ht a hmem ↦ haccepts t (List.mem_cons_of_mem _ ht) a (List.mem_cons_of_mem _ hmem)
  | skip _ ih => exact .skip (ih fun t ht ↦ haccepts t (List.mem_cons_of_mem _ ht))
  | more ha _ ih =>
    refine .more (haccepts _ List.mem_cons_self _ List.mem_cons_self ha) (ih ?_)
    exact fun t ht a hmem ↦ haccepts t ht a (List.mem_cons_of_mem _ hmem)

theorem Matches.append (h : Matches accepts p l) (h' : Matches accepts q l') :
    Matches accepts (p ++ q) (l ++ l') := by
  induction h with
  | nil => exact h'
  | one ha _ ih => exact .one ha ih
  | skip _ ih => exact .skip ih
  | more ha _ ih => exact .more ha ih

theorem matches_append : Matches accepts (p ++ q) l ↔
    ∃ l₁ l₂, l = l₁ ++ l₂ ∧ Matches accepts p l₁ ∧ Matches accepts q l₂ := by
  refine ⟨?_, ?_⟩
  · intro h
    induction p generalizing l with
    | nil => exact ⟨[], l, rfl, .nil, h⟩
    | cons t p ih =>
      cases t with
      | one b =>
        cases h with
        | one ha h =>
          obtain ⟨l₁, l₂, rfl, hp, hq⟩ := ih h
          exact ⟨_ :: l₁, l₂, rfl, .one ha hp, hq⟩
      | many b =>
        obtain ⟨l₁, l₂, rfl, hall, h⟩ := matches_many_cons.mp h
        obtain ⟨l₃, l₄, rfl, hp, hq⟩ := ih h
        exact ⟨l₁ ++ l₃, l₄, (List.append_assoc _ _ _).symm, matches_many_append hp hall, hq⟩
  · intro h
    obtain ⟨l₁, l₂, rfl, hp, hq⟩ := h
    exact hp.append hq

theorem matches_many : Matches accepts [.many b] l ↔ ∀ a ∈ l, accepts b a = true := by
  rw [matches_many_cons]
  refine ⟨?_, fun h ↦ ⟨l, [], (List.append_nil l).symm, h, .nil⟩⟩
  intro h
  obtain ⟨l₁, l₂, rfl, hall, hnil⟩ := h
  cases hnil
  rwa [List.append_nil]

theorem Matches.reverse (h : Matches accepts p l) : Matches accepts p.reverse l.reverse := by
  induction p generalizing l with
  | nil =>
    cases h
    exact .nil
  | cons t p ih =>
    cases t with
    | one b =>
      cases h with
      | one ha h =>
        rw [List.reverse_cons, List.reverse_cons]
        exact (ih h).append (.one ha .nil)
    | many b =>
      obtain ⟨l₁, l₂, rfl, hall, h⟩ := matches_many_cons.mp h
      rw [List.reverse_cons, List.reverse_append]
      refine (ih h).append (matches_many.mpr ?_)
      intro a ha
      exact hall a (List.mem_reverse.mp ha)

theorem matches_reverse : Matches accepts p.reverse l.reverse ↔ Matches accepts p l := by
  refine ⟨?_, Matches.reverse⟩
  intro h
  rw [← List.reverse_reverse p, ← List.reverse_reverse l]
  exact h.reverse

theorem Matches.exists_mem (h : Matches accepts p l) (hb : .one b ∈ p) :
    ∃ a ∈ l, accepts b a = true := by
  obtain ⟨before, after, rfl⟩ := List.append_of_mem hb
  obtain ⟨l₁, l₂, rfl, -, hone⟩ := matches_append.mp h
  cases hone with
  | one ha _ => exact ⟨_, by simp, ha⟩

/-- Tokens for anything, one of them repeated, also match what has more in front. -/
theorem Matches.absorb (hw : ∀ t ∈ w, ∀ a, accepts t.symbol a = true)
    (hmany : ∃ b, .many b ∈ w) (h : Matches accepts (w ++ p) l) (l' : List A) :
    Matches accepts (w ++ p) (l' ++ l) := by
  induction w generalizing l l' with
  | nil => simp at hmany
  | cons t w ih =>
    obtain ⟨ht, hrest⟩ := List.forall_mem_cons.mp hw
    cases t with
    | one b =>
      cases h with
      | @one _ a _ l ha h =>
        have hmany' : ∃ b, .many b ∈ w := by simpa using hmany
        cases l' with
        | nil => exact .one ha h
        | cons c l' =>
          have hskip := ih hrest hmany' h (l' ++ [a])
          rw [List.append_assoc, List.singleton_append] at hskip
          exact .one (ht c) hskip
    | many b =>
      obtain ⟨l₁, l₂, rfl, hall, h⟩ := matches_many_cons.mp h
      rw [← List.append_assoc]
      exact matches_many_append h fun a _ ↦ ht a

end Matches

end Peripherals.Glob
