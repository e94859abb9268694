import Mathlib.Data.List.DropRight
import Peripherals.GetFileContent.SearchFiles
import Peripherals.Glob

/-! The test of a file name against a segment with wildcards. -/

namespace Peripherals.GetFileContent

open Glob Lines

/-- `pattern_s.find(c, pos)` -/
def find (pattern_s : Text) (c : Char) (pos : ℕ) : Option ℕ :=
  if c ∈ pattern_s.drop pos then some (pos + (pattern_s.drop pos).idxOf c) else none

/-- The loop that replaces a wildcard; it goes on `advance` characters later. -/
def replaceLoop (c : Char) (replacement : Text) (advance : ℕ) : ℕ → ℕ → Text → Text
  | 0, _, pattern_s => pattern_s
  | fuel + 1, pos, pattern_s =>
    match find pattern_s c pos with
    | some pos => replaceLoop c replacement advance fuel (pos + advance)
        (pattern_s.take pos ++ replacement ++ pattern_s.drop (pos + 1))
    | none => pattern_s

def patternOf (currentPath : Text) : Text :=
  let pattern_s := replaceLoop '*' "[^\\n]*".toList 6 (currentPath.length + 1) 0 currentPath
  replaceLoop '?' "[^\\n]\x7b1\x7d".toList 8 (pattern_s.length + 1) 0 pattern_s

inductive CharClass
  | char (c : Char)
  | dot
  | except (cs : List Char)

def CharClass.accepts : CharClass → Char → Bool
  | .char c, a => c = a
  | .dot, a => a ≠ '\n' && a ≠ '\r'
  | .except cs, a => !cs.contains a

def syntaxCharacters : Text := "^$\\.*+?()[]\x7b\x7d|".toList

/-- Characters and `\n` up to the closing bracket. -/
def parseExcept : Text → Option (List Char × Text)
  | ']' :: rest => some ([], rest)
  | '\\' :: 'n' :: rest => (parseExcept rest).map fun r ↦ ('\n' :: r.1, r.2)
  | c :: rest =>
    if c ∈ ['\\', '[', '-'] then none else (parseExcept rest).map fun r ↦ (c :: r.1, r.2)
  | [] => none

def parseAtom : Text → Option (CharClass × Text)
  | '[' :: '^' :: rest => (parseExcept rest).map fun r ↦ (.except r.1, r.2)
  | '.' :: rest => some (.dot, rest)
  | c :: rest => if c ∈ syntaxCharacters then none else some (.char c, rest)
  | [] => none

def parseQuantifier (atom : CharClass) : Text → List (Token CharClass) × Text
  | '*' :: rest => ([.many atom], rest)
  | '\x7b' :: n :: '\x7d' :: rest =>
    if n.isDigit then (List.replicate (n.toNat - '0'.toNat) (.one atom), rest)
    else ([.one atom], '\x7b' :: n :: '\x7d' :: rest)
  | rest => ([.one atom], rest)

/-- The part of the ECMAScript grammar without groups, alternatives and assertions. -/
def parse : ℕ → Text → Option (List (Token CharClass))
  | _, [] => some []
  | 0, _ :: _ => none
  | fuel + 1, c :: rest =>
    match parseAtom (c :: rest) with
    | none => none
    | some (atom, rest) =>
      let (tokens, rest) := parseQuantifier atom rest
      (parse fuel rest).map (tokens ++ ·)

/-- `std::regex pattern(pattern_s.c_str())` -/
def regex (pattern_s : Text) : Option (List (Token CharClass)) := parse pattern_s.length pattern_s

/-- `std::regex_search(fileName, matches, pattern)` -/
def regexSearch (pattern : List (Token CharClass)) (fileName : Text) : Bool :=
  search CharClass.accepts pattern fileName

/-- The test of a name, if the pattern is a regular expression. -/
def isMatch (currentPath fileName : Text) : Option Bool :=
  (regex (patternOf currentPath)).map (regexSearch · fileName)

def Query.withRegex {N : Type} (fs : FileSystem N) (exclusions : List Text) : Query N :=
  ⟨fs, fun currentPath fileName ↦ isMatch currentPath fileName = some true, exclusions⟩

def isSegmentChar (c : Char) : Bool := c.isAlphanum || ['.', '_', '-', '*', '?'].contains c

def isWildcard (c : Char) : Bool := c = '*' || c = '?'

def tokens (segment : Text) : List (Token Char) :=
  segment.map fun c ↦ if c = '*' then .many c else .one c

/-- Wildcards accept every character, and every other character itself. -/
def globAccepts (b a : Char) : Bool := isWildcard b || b = a

/-- A dot accepts every character but a CR, too. -/
def looseAccepts (b a : Char) : Bool := globAccepts b a || (b = '.' && a ≠ '\r')

def Glob (segment fileName : Text) : Prop := Matches globAccepts (tokens segment) fileName

instance (segment fileName : Text) : Decidable (Glob segment fileName) :=
  inferInstanceAs (Decidable (Matches globAccepts (tokens segment) fileName))

def Agrees (segment fileName : Text) : Prop :=
  isMatch segment fileName = some true ↔ Glob segment fileName

variable {segment fileName part rest before after : Text} {c : Char} {fuel : ℕ}

section Pattern

def translate (c : Char) : Text :=
  if c = '*' then "[^\\n]*".toList else if c = '?' then "[^\\n]\x7b1\x7d".toList else [c]

def classOf (c : Char) : CharClass :=
  if isWildcard c then .except ['\n'] else if c = '.' then .dot else .char c

def Continues (rest : Text) : Prop := ∀ c, rest.head? = some c → c ≠ '*' ∧ c ≠ '\x7b'

theorem replaceLoop_eq {replacement : Text} (done : Text) (hfuel : rest.length < fuel) :
    replaceLoop c replacement replacement.length fuel done.length (done ++ rest) =
      done ++ replaceEach c replacement rest := by
  induction fuel generalizing done rest with
  | zero => omega
  | succ fuel ih =>
    rw [replaceLoop, find, List.drop_left]
    by_cases hc : c ∈ rest
    · obtain ⟨before, after, rfl, hbefore⟩ := List.eq_append_cons_of_mem hc
      have hindex : (before ++ c :: after).idxOf c = before.length := by
        rw [List.idxOf_append_of_notMem hbefore, List.idxOf_cons_self, Nat.add_zero]
      have htake : (done ++ (before ++ c :: after)).take (done.length + before.length) =
          done ++ before := by
        rw [← List.append_assoc, ← List.length_append, List.take_left]
      have hdrop : (done ++ (before ++ c :: after)).drop (done.length + before.length + 1) =
          after := by
        rw [List.append_cons, ← List.append_assoc]
        exact List.drop_left' (by simp [Nat.add_assoc])
      have hrest : replaceLoop c replacement replacement.length fuel
          (done ++ before ++ replacement).length (done ++ before ++ replacement ++ after) =
            done ++ before ++ replacement ++ replaceEach c replacement after := by
        apply ih
        simp only [List.length_append, List.length_cons] at hfuel
        omega
      rw [if_pos hc, hindex, replaceEach_append, replaceEach_of_not_mem hbefore,
        replaceEach_cons_self]
      dsimp only
      rw [htake, hdrop]
      simpa only [List.length_append, List.append_assoc, Nat.add_assoc] using hrest
    · rw [if_neg hc, replaceEach_of_not_mem hc]

theorem patternOf_eq (segment : Text) : patternOf segment = segment.flatMap translate := by
  have hloop (c : Char) (replacement s : Text) :
      replaceLoop c replacement replacement.length (s.length + 1) 0 s =
        replaceEach c replacement s :=
    replaceLoop_eq [] (Nat.lt_succ_self s.length)
  have hpattern : patternOf segment = replaceEach '?' "[^\\n]\x7b1\x7d".toList
      (replaceEach '*' "[^\\n]*".toList segment) :=
    (hloop '?' "[^\\n]\x7b1\x7d".toList _).trans
      (congrArg _ (hloop '*' "[^\\n]*".toList segment))
  rw [hpattern, replaceEach, replaceEach, List.flatMap_assoc]
  apply List.flatMap_congr
  intro c _
  unfold translate
  split
  · rfl
  · rw [List.flatMap_singleton]

theorem segmentChar_ne {d : Char} (hc : isSegmentChar c = true) (hd : isSegmentChar d = false) :
    c ≠ d := by
  intro h
  simp [h, hd] at hc

theorem syntax_segmentChar (hspecial : c ∈ syntaxCharacters) (hc : isSegmentChar c = true) :
    c = '.' ∨ isWildcard c = true := by
  have hall : syntaxCharacters.all fun c ↦ !isSegmentChar c || (c = '.' || isWildcard c) := by
    decide
  simpa [hc] using List.all_eq_true.mp hall c hspecial

theorem parseQuantifier_none (atom : CharClass) (h : Continues rest) :
    parseQuantifier atom rest = ([.one atom], rest) := by
  unfold parseQuantifier
  split
  · exact ((h '*' rfl).1 rfl).elim
  · exact ((h '\x7b' rfl).2 rfl).elim
  · rfl

theorem parseAtom_segmentChar (hc : isSegmentChar c = true) (hwild : isWildcard c = false)
    (rest : Text) : parseAtom (c :: rest) = some (classOf c, rest) := by
  unfold parseAtom
  split
  next heq =>
    exact (segmentChar_ne hc rfl (List.cons.inj heq).1).elim
  next heq =>
    obtain ⟨rfl, rfl⟩ := List.cons.inj heq
    rfl
  next hdot heq =>
    obtain ⟨rfl, rfl⟩ := List.cons.inj heq
    have hplain : c ≠ '.' := hdot
    have hspecial : c ∉ syntaxCharacters := by
      intro hmem
      rcases syntax_segmentChar hmem hc with hdot | hwild'
      · exact hplain hdot
      · simp [hwild] at hwild'
    rw [if_neg hspecial, classOf, hwild, if_neg hplain]
    rfl
  next heq => cases heq

theorem parse_translate (hc : isSegmentChar c = true) (h : Continues rest) :
    parse (fuel + 1) (translate c ++ rest) =
      (parse fuel rest).map ((if c = '*' then .many (classOf c) else .one (classOf c)) :: ·) := by
  unfold translate
  split
  next hstar =>
    subst hstar
    rfl
  next hstar =>
    split
    next hquestion =>
      subst hquestion
      rfl
    next hquestion =>
      have hwild : isWildcard c = false := by simp [isWildcard, hstar, hquestion]
      rw [List.singleton_append, parse, parseAtom_segmentChar hc hwild rest]
      dsimp only
      rw [parseQuantifier_none _ h]
      rfl

theorem continues_flatMap (hsegment : ∀ c ∈ segment, isSegmentChar c = true) :
    Continues (segment.flatMap translate) := by
  intro c hc
  cases segment with
  | nil => cases hc
  | cons d segment =>
    have hd := hsegment d List.mem_cons_self
    rw [List.flatMap_cons, translate] at hc
    split at hc
    · obtain rfl : '[' = c := Option.some.inj hc
      decide
    next hstar =>
      split at hc
      · obtain rfl : '[' = c := Option.some.inj hc
        decide
      · obtain rfl : d = c := Option.some.inj hc
        exact ⟨hstar, segmentChar_ne hd rfl⟩

theorem parse_flatMap (hsegment : ∀ c ∈ segment, isSegmentChar c = true)
    (hfuel : segment.length ≤ fuel) : parse fuel (segment.flatMap translate) =
      some ((tokens segment).map (Token.map classOf)) := by
  induction segment generalizing fuel with
  | nil => cases fuel <;> rfl
  | cons c segment ih =>
    obtain ⟨hc, hrest⟩ := List.forall_mem_cons.mp hsegment
    cases fuel with
    | zero => cases hfuel
    | succ fuel =>
      rw [List.flatMap_cons, parse_translate hc (continues_flatMap hrest),
        ih hrest (Nat.le_of_succ_le_succ hfuel)]
      simp only [tokens, List.map_cons, Option.map_some]
      split <;> rfl

theorem length_le_flatMap (segment : Text) :
    segment.length ≤ (segment.flatMap translate).length := by
  induction segment with
  | nil => simp
  | cons c segment ih =>
    have hc : 0 < (translate c).length := by
      rw [translate]
      split
      · exact Nat.succ_pos 5
      · split
        · exact Nat.succ_pos 7
        · exact Nat.one_pos
    rw [List.flatMap_cons, List.length_append, List.length_cons]
    omega

theorem regex_patternOf (hsegment : ∀ c ∈ segment, isSegmentChar c = true) :
    regex (patternOf segment) = some ((tokens segment).map (Token.map classOf)) := by
  rw [regex, patternOf_eq]
  exact parse_flatMap hsegment (length_le_flatMap segment)

theorem accepts_classOf {b a : Char} (ha : a ≠ '\n') :
    (classOf b).accepts a = looseAccepts b a := by
  unfold classOf looseAccepts globAccepts
  cases hwild : isWildcard b with
  | true => simp [CharClass.accepts, ha]
  | false =>
    by_cases hb : b = '.'
    · subst hb
      by_cases hdot : '.' = a
      · subst hdot
        decide
      · simp [CharClass.accepts, ha, hdot]
    · simp [CharClass.accepts, hb]

/-- For a name without a newline the translated segment is looked for in the name, with
dots for any character. -/
theorem isMatch_iff (hsegment : ∀ c ∈ segment, isSegmentChar c = true) (hname : '\n' ∉ fileName) :
    isMatch segment fileName = some true ↔
      ∃ part, part <:+: fileName ∧ Matches looseAccepts (tokens segment) part := by
  rw [isMatch, regex_patternOf hsegment, Option.map_some, Option.some_inj, regexSearch, search_iff]
  refine exists_congr fun part ↦ and_congr_right fun hpart ↦ ?_
  have hne : ∀ a ∈ part, a ≠ '\n' := fun a ha heq ↦ hname (hpart.subset (heq ▸ ha))
  rw [matches_map]
  refine ⟨?_, ?_⟩
  · intro h
    exact h.mono fun t _ a ha haccepts ↦ (accepts_classOf (hne a ha)).symm.trans haccepts
  · intro h
    exact h.mono fun t _ a ha haccepts ↦ (accepts_classOf (hne a ha)).trans haccepts

end Pattern

section Glob

/-- A name that the segment matches, with `~` for wildcards and dots. -/
def fill (segment : Text) : Text :=
  (segment.filter (· ≠ '*')).map fun c ↦ if c = '?' ∨ c = '.' then '~' else c

theorem newLine_not_mem_fill (hsegment : ∀ c ∈ segment, isSegmentChar c = true) :
    '\n' ∉ fill segment := by
  intro h
  obtain ⟨c, hc, heq⟩ := List.mem_map.mp h
  split at heq
  · cases heq
  · exact segmentChar_ne (hsegment c (List.mem_filter.mp hc).1) rfl heq

theorem dot_not_mem_fill (segment : Text) : '.' ∉ fill segment := by
  intro h
  obtain ⟨c, -, heq⟩ := List.mem_map.mp h
  split at heq
  · cases heq
  next hc => exact hc (.inr heq)

theorem matches_fill (segment : Text) :
    Matches looseAccepts (tokens segment) (fill segment) := by
  induction segment with
  | nil => exact .nil
  | cons c segment ih =>
    by_cases hstar : c = '*'
    · subst hstar
      exact .skip ih
    · rw [tokens, List.map_cons, if_neg hstar, fill, List.filter_cons_of_pos (by simpa using hstar),
        List.map_cons]
      refine .one ?_ ih
      split
      next hc =>
        rcases hc with rfl | rfl
        · decide
        · decide
      · simp [looseAccepts, globAccepts]

/-- With no `*` at its beginning a segment leaves no room in front. -/
theorem not_glob_cons_fill (hsegment : ∀ c ∈ segment, isSegmentChar c = true)
    (hstar : '*' ∉ segment.takeWhile isWildcard) : ¬ Glob segment ('~' :: fill segment) := by
  intro h
  induction segment with
  | nil => cases h
  | cons c segment ih =>
    obtain ⟨hc, hrest⟩ := List.forall_mem_cons.mp hsegment
    by_cases hquestion : c = '?'
    · subst hquestion
      have hstar' : '*' ∉ segment.takeWhile isWildcard := by simpa [isWildcard] using hstar
      cases h with
      | one _ h => exact ih hrest hstar' h
    · have hplain : c ≠ '*' := by
        rintro rfl
        simp [isWildcard] at hstar
      rw [Glob, tokens, List.map_cons, if_neg hplain] at h
      have hne : c ≠ '~' := segmentChar_ne hc rfl
      cases h with
      | one ha _ => simp [globAccepts, isWildcard, hplain, hquestion, hne] at ha

theorem glob_reverse : Glob segment.reverse fileName.reverse ↔ Glob segment fileName := by
  rw [Glob, tokens, List.map_reverse]
  exact matches_reverse

theorem not_glob_fill_snoc (hsegment : ∀ c ∈ segment, isSegmentChar c = true)
    (hstar : '*' ∉ segment.rtakeWhile isWildcard) : ¬ Glob segment (fill segment ++ ['~']) := by
  have hfill : ('~' :: fill segment.reverse) = (fill segment ++ ['~']).reverse := by
    simp [fill]
  rw [← glob_reverse, ← hfill]
  apply not_glob_cons_fill
  · intro c hc
    exact hsegment c (List.mem_reverse.mp hc)
  · simpa [List.rtakeWhile] using hstar

theorem symbol_mem_of_mem_tokens {t : Token Char} (ht : t ∈ tokens segment) :
    t.symbol ∈ segment := by
  obtain ⟨c, hc, rfl⟩ := List.mem_map.mp ht
  split <;> exact hc

theorem Glob.cons (h : Glob segment fileName) (hstar : '*' ∈ segment.takeWhile isWildcard)
    (before : Text) : Glob segment (before ++ fileName) := by
  have hsplit : tokens segment = tokens (segment.takeWhile isWildcard) ++
      tokens (segment.dropWhile isWildcard) := by
    rw [tokens, tokens, tokens, ← List.map_append, List.takeWhile_append_dropWhile]
  rw [Glob, hsplit] at h ⊢
  have hmany : .many '*' ∈ tokens (segment.takeWhile isWildcard) :=
    List.mem_map.mpr ⟨'*', hstar, rfl⟩
  refine h.absorb ?_ ⟨'*', hmany⟩ before
  intro t ht a
  rw [globAccepts, List.mem_takeWhile_imp (symbol_mem_of_mem_tokens ht), Bool.true_or]

theorem Glob.snoc (h : Glob segment fileName) (hstar : '*' ∈ segment.rtakeWhile isWildcard)
    (after : Text) : Glob segment (fileName ++ after) := by
  rw [← glob_reverse] at h ⊢
  rw [List.reverse_append]
  exact h.cons (by simpa [List.rtakeWhile] using hstar) _

theorem loose_of_glob (h : Glob segment fileName) :
    Matches looseAccepts (tokens segment) fileName :=
  h.mono fun t _ a _ ha ↦ by rw [looseAccepts, ha, Bool.true_or]

theorem glob_of_loose (hdot : '.' ∉ segment) (h : Matches looseAccepts (tokens segment) fileName) :
    Glob segment fileName := by
  refine h.mono fun t ht a _ ha ↦ ?_
  have hplain : t.symbol ≠ '.' := fun heq ↦ hdot (heq ▸ symbol_mem_of_mem_tokens ht)
  simpa [looseAccepts, hplain] using ha

/-- Everything around a match is taken in by the wildcards at both ends. -/
theorem glob_of_part (hdot : '.' ∉ segment) (hfirst : '*' ∈ segment.takeWhile isWildcard)
    (hlast : '*' ∈ segment.rtakeWhile isWildcard) (hpart : part <:+: fileName)
    (h : Matches looseAccepts (tokens segment) part) : Glob segment fileName := by
  obtain ⟨before, after, rfl⟩ := hpart
  exact ((glob_of_loose hdot h).cons hfirst before).snoc hlast after

theorem agrees_iff (hsegment : ∀ c ∈ segment, isSegmentChar c = true) (hname : '\n' ∉ fileName) :
    Agrees segment fileName ↔ Glob segment fileName ∨
      ∀ part, part <:+: fileName → ¬ Matches looseAccepts (tokens segment) part := by
  rw [Agrees, isMatch_iff hsegment hname]
  refine ⟨?_, ?_⟩
  · intro h
    by_cases hpart : ∃ part, part <:+: fileName ∧ Matches looseAccepts (tokens segment) part
    · exact .inl (h.mp hpart)
    · exact .inr fun part hinfix hmatch ↦ hpart ⟨part, hinfix, hmatch⟩
  · intro h
    refine ⟨?_, fun hglob ↦ ⟨fileName, List.infix_refl _, loose_of_glob hglob⟩⟩
    intro hpart
    obtain ⟨part, hinfix, hmatch⟩ := hpart
    exact h.resolve_right fun hnone ↦ hnone part hinfix hmatch

theorem agrees_of_wildcards (hsegment : ∀ c ∈ segment, isSegmentChar c = true)
    (hdot : '.' ∉ segment) (hfirst : '*' ∈ segment.takeWhile isWildcard)
    (hlast : '*' ∈ segment.rtakeWhile isWildcard) (hname : '\n' ∉ fileName) :
    Agrees segment fileName := by
  rw [agrees_iff hsegment hname]
  by_cases hpart : ∃ part, part <:+: fileName ∧ Matches looseAccepts (tokens segment) part
  · obtain ⟨part, hinfix, hmatch⟩ := hpart
    exact .inl (glob_of_part hdot hfirst hlast hinfix hmatch)
  · exact .inr fun part hinfix hmatch ↦ hpart ⟨part, hinfix, hmatch⟩

theorem isMatch_fill (hsegment : ∀ c ∈ segment, isSegmentChar c = true)
    (hbefore : '\n' ∉ before) (hafter : '\n' ∉ after) :
    isMatch segment (before ++ fill segment ++ after) = some true := by
  refine (isMatch_iff hsegment ?_).mpr ⟨fill segment, ⟨before, after, rfl⟩, matches_fill segment⟩
  simp [hbefore, hafter, newLine_not_mem_fill hsegment]

theorem dot_not_mem_of_glob_fill (h : Glob segment (fill segment)) : '.' ∉ segment := by
  intro hdot
  obtain ⟨a, ha, haccepts⟩ := h.exists_mem (List.mem_map.mpr ⟨'.', hdot, rfl⟩)
  obtain rfl : '.' = a := by simpa [globAccepts, isWildcard] using haccepts
  exact dot_not_mem_fill segment ha

end Glob

/-- The test of a name agrees with the glob if and only if the whole name matches or no part
of it does, dots taken for any character; it agrees for all names if and only if the segment
has no dot and a `*` among the wildcards at its beginning and among those at its end. -/
theorem isMatch_glob_iff (hsegment : ∀ c ∈ segment, isSegmentChar c = true) :
    (∀ fileName, '\n' ∉ fileName →
      (Agrees segment fileName ↔ Glob segment fileName ∨
        ∀ part, part <:+: fileName → ¬ Matches looseAccepts (tokens segment) part)) ∧
    ((∀ fileName, '\n' ∉ fileName → Agrees segment fileName) ↔
      '.' ∉ segment ∧ '*' ∈ segment.takeWhile isWildcard ∧
        '*' ∈ segment.rtakeWhile isWildcard) := by
  refine ⟨fun fileName hname ↦ agrees_iff hsegment hname, ?_, ?_⟩
  · intro h
    have hfill := newLine_not_mem_fill hsegment
    have hglob (before after : Text) (hbefore : '\n' ∉ before) (hafter : '\n' ∉ after) :
        Glob segment (before ++ fill segment ++ after) :=
      (h _ (by simp [hbefore, hafter, hfill])).mp (isMatch_fill hsegment hbefore hafter)
    refine ⟨?_, ?_, ?_⟩
    · apply dot_not_mem_of_glob_fill
      simpa using hglob [] [] (by simp) (by simp)
    · by_contra hstar
      apply not_glob_cons_fill hsegment hstar
      simpa using hglob ['~'] [] (by simp) (by simp)
    · by_contra hstar
      exact not_glob_fill_snoc hsegment hstar (hglob [] ['~'] (by simp) (by simp))
  · intro h fileName hname
    exact agrees_of_wildcards hsegment h.1 h.2.1 h.2.2 hname

theorem isMatch_glob_iff_text :
    (∀ fileName, '\n' ∉ fileName →
      (Agrees "*.txt".toList fileName ↔ Glob "*.txt".toList fileName ∨
        ∀ part, part <:+: fileName → ¬ Matches looseAccepts (tokens "*.txt".toList) part)) ∧
    ((∀ fileName, '\n' ∉ fileName → Agrees "*.txt".toList fileName) ↔
      '.' ∉ "*.txt".toList ∧ '*' ∈ "*.txt".toList.takeWhile isWildcard ∧
        '*' ∈ "*.txt".toList.rtakeWhile isWildcard) :=
  isMatch_glob_iff (List.all_eq_true.mp (by decide))

/-- The name goes on after the part that matches. -/
theorem part_accepted : ¬ ∀ segment fileName : Text, (∀ c ∈ segment, isSegmentChar c = true) →
    hasWildcard segment = true → '\n' ∉ fileName → Agrees segment fileName := by
  intro h
  have hagrees := h "*.txt".toList "a.txt.bak".toList (List.all_eq_true.mp (by decide))
    (by decide) (by decide)
  have hmatch : isMatch "*.txt".toList "a.txt.bak".toList = some true := by decide +kernel
  have hglob := hagrees.mp hmatch
  revert hglob
  decide +kernel

end Peripherals.GetFileContent
