import ChainedSdk.GraphQL.Token
import ChainedSdk.Proofs.Words
import Mathlib.Data.List.Basic
/-!
# Names up to underscores and letter case

To cut a name into words inserts underscores, to join the words drops them, and either changes the
case of letters. Nothing else happens to a name in ASCII: without its underscores and in lower case
it stays what it was. So two names with one Pascal form are one name up to that.
-/

namespace ChainedSdk.Text

def dropUnderscores (chars : List Char) : List Char := chars.filter (· ≠ '_')

/-- A text without its underscores and in lower case. -/
def bare (chars : List Char) : List Char := lower (dropUnderscores chars)

/-- All characters of a text are in ASCII. -/
def Plain (chars : List Char) : Prop := ∀ char ∈ chars, char.toNat < 128

variable {chars : List Char}

theorem Plain.subset {fewer : List Char} (plain : Plain chars) (subset : fewer ⊆ chars) :
    Plain fewer := fun char member => plain char (subset member)

theorem plain_of_isNameChar (named : ∀ char ∈ chars, GraphQL.isNameChar char) : Plain chars := by
  intro char member
  have isName := named char member
  simp only [GraphQL.isNameChar, GraphQL.isNameStart, Bool.or_eq_true, Bool.and_eq_true,
    decide_eq_true_eq] at isName
  have bound {last : Char} (below : char ≤ last) : char.toNat ≤ last.toNat := below
  rcases isName with ((rfl | ⟨_, below⟩) | ⟨_, below⟩) | ⟨_, below⟩
  · decide
  · exact Nat.lt_of_le_of_lt (bound below) (by decide)
  · exact Nat.lt_of_le_of_lt (bound below) (by decide)
  · exact Nat.lt_of_le_of_lt (bound below) (by decide)

/-! ## One character -/

private theorem forall_plain (holds : Char → Prop)
    (every : ∀ code : Fin 128, holds (Char.ofNat code)) {char : Char} (plain : char.toNat < 128) :
    holds char := by
  have whole := every ⟨char.toNat, plain⟩
  rwa [Char.ofNat_toNat] at whole

-- A condition on the members of a list would be decided by going through all characters there are.
theorem plain_iff_all : Plain chars ↔ chars.all (fun char => char.toNat < 128) = true := by
  simp only [Plain, List.all_eq_true, decide_eq_true_eq]

theorem plain_lowerOf {char : Char} (plain : char.toNat < 128) : Plain (lowerOf char) :=
  plain_iff_all.mpr <|
    forall_plain (fun char => (lowerOf char).all (fun mapped => mapped.toNat < 128) = true)
      (by decide +kernel) plain

theorem lowerOf_lowerOf {char : Char} (plain : char.toNat < 128) :
    (lowerOf char).flatMap lowerOf = lowerOf char :=
  forall_plain (fun char => (lowerOf char).flatMap lowerOf = lowerOf char)
    (by decide +kernel) plain

theorem not_isCapital_of_mem_lowerOf {char mapped : Char} (plain : char.toNat < 128)
    (member : mapped ∈ lowerOf char) : isCapital mapped = false := by
  have none_ : (lowerOf char).all (fun mapped => !isCapital mapped) = true :=
    forall_plain (fun char => (lowerOf char).all (fun mapped => !isCapital mapped) = true)
      (by decide +kernel) plain
  simpa using List.all_eq_true.mp none_ mapped member

theorem plain_titleOf {char : Char} (plain : char.toNat < 128) : Plain (titleOf char) :=
  plain_iff_all.mpr <|
    forall_plain (fun char => (titleOf char).all (fun mapped => mapped.toNat < 128) = true)
      (by decide +kernel) plain

theorem lowerOf_titleOf {char : Char} (plain : char.toNat < 128) :
    (titleOf char).flatMap lowerOf = lowerOf char :=
  forall_plain (fun char => (titleOf char).flatMap lowerOf = lowerOf char)
    (by decide +kernel) plain

/-! ## Texts -/

/-- The small sigma apart, a text changes its case character by character. -/
theorem lowerAfter_eq_flatMap (plain : Plain chars) (before : List Char) :
    lowerAfter before chars = chars.flatMap lowerOf := by
  induction chars generalizing before with
  | nil => rfl
  | cons char rest ih =>
    have ordinary : char ≠ 'Σ' := by
      rintro rfl
      exact absurd (plain _ List.mem_cons_self) (by decide)
    rw [lowerAfter, if_neg ordinary, ih (plain.subset (List.subset_cons_self char rest)),
      List.flatMap_cons]

theorem lower_eq_flatMap (plain : Plain chars) : lower chars = chars.flatMap lowerOf :=
  lowerAfter_eq_flatMap plain []

theorem plain_flatMap {change : Char → List Char} (plain : Plain chars)
    (each : ∀ char, char.toNat < 128 → Plain (change char)) : Plain (chars.flatMap change) := by
  intro mapped member
  obtain ⟨char, isChar, isMapped⟩ := List.mem_flatMap.mp member
  exact each char (plain char isChar) mapped isMapped

theorem plain_lower (plain : Plain chars) : Plain (lower chars) := by
  rw [lower_eq_flatMap plain]
  exact plain_flatMap plain fun _ => plain_lowerOf

theorem lower_lower (plain : Plain chars) : lower (lower chars) = lower chars := by
  rw [lower_eq_flatMap (plain_lower plain), lower_eq_flatMap plain, List.flatMap_assoc]
  exact List.flatMap_congr fun char member => lowerOf_lowerOf (plain char member)

theorem plain_capitalize (plain : Plain chars) : Plain (capitalize chars) := by
  cases chars with
  | nil => exact plain
  | cons char rest =>
    have plainRest := plain.subset (List.subset_cons_self char rest)
    intro mapped member
    rcases List.mem_append.mp member with atHead | later
    · exact plain_titleOf (plain char List.mem_cons_self) mapped atHead
    · rw [lowerAfter_eq_flatMap plainRest] at later
      exact plain_flatMap plainRest (fun _ => plain_lowerOf) mapped later

theorem lower_capitalize (plain : Plain chars) : lower (capitalize chars) = lower chars := by
  rw [lower_eq_flatMap (plain_capitalize plain), lower_eq_flatMap plain]
  cases chars with
  | nil => rfl
  | cons char rest =>
    have plainRest := plain.subset (List.subset_cons_self char rest)
    rw [capitalize, lowerAfter_eq_flatMap plainRest, List.flatMap_append, List.flatMap_assoc,
      lowerOf_titleOf (plain char List.mem_cons_self), List.flatMap_cons,
      List.flatMap_congr fun char member => lowerOf_lowerOf (plainRest char member)]

/-! ## Underscores -/

/-- Only underscores are left out, so what stands before them does not matter. -/
theorem dropUnderscores_cons {rest other : List Char} (char : Char)
    (same : dropUnderscores rest = dropUnderscores other) :
    dropUnderscores (char :: rest) = dropUnderscores (char :: other) := by
  unfold dropUnderscores at same ⊢
  rw [List.filter_cons, List.filter_cons, same]

theorem dropUnderscores_append (first second : List Char) :
    dropUnderscores (first ++ second) = dropUnderscores first ++ dropUnderscores second :=
  List.filter_append _ _

theorem dropUnderscores_underscore (chars : List Char) :
    dropUnderscores ('_' :: chars) = dropUnderscores chars :=
  List.filter_cons_of_neg (by decide)

theorem dropUnderscores_of_ne {char : Char} (other : char ≠ '_') (chars : List Char) :
    dropUnderscores (char :: chars) = char :: dropUnderscores chars :=
  List.filter_cons_of_pos (decide_eq_true other)

theorem dropUnderscores_of_not_mem (absent : '_' ∉ chars) : dropUnderscores chars = chars :=
  List.filter_eq_self.mpr fun _ member => decide_eq_true fun same => absent (same ▸ member)

theorem dropUnderscores_breakBeforeWords (chars : List Char) :
    dropUnderscores (breakBeforeWords chars) = dropUnderscores chars := by
  induction chars using breakBeforeWords.induct with
  | case1 before capital small rest breaks ih =>
    rw [breakBeforeWords, if_pos breaks, dropUnderscores_append, ih, ← dropUnderscores_append]
    simp only [List.cons_append, List.takeWhile_append_dropWhile]
    exact dropUnderscores_cons before (dropUnderscores_underscore _)
  | case2 before capital small rest whole ih =>
    rw [breakBeforeWords, if_neg whole]
    exact dropUnderscores_cons before ih
  | case3 chars short => rw [breakBeforeWords.eq_2 chars short]

theorem dropUnderscores_breakBeforeCapitals (chars : List Char) :
    dropUnderscores (breakBeforeCapitals chars) = dropUnderscores chars := by
  induction chars using breakBeforeCapitals.induct with
  | case1 before capital rest breaks ih =>
    rw [breakBeforeCapitals, if_pos breaks]
    refine dropUnderscores_cons before ?_
    rw [dropUnderscores_underscore]
    exact dropUnderscores_cons capital ih
  | case2 before capital rest whole ih =>
    rw [breakBeforeCapitals, if_neg whole]
    exact dropUnderscores_cons before ih
  | case3 chars short => rw [breakBeforeCapitals.eq_2 chars short]

/-- The parts between the underscores are all that stands beside them. -/
theorem flatten_splitUnderscores (chars : List Char) :
    (splitUnderscores chars).flatten = dropUnderscores chars := by
  induction chars with
  | nil => rfl
  | cons char rest ih =>
    by_cases underscore : char = '_'
    · rw [splitUnderscores, if_pos underscore, List.flatten_cons, ih, underscore,
        dropUnderscores_underscore]
      rfl
    · rw [dropUnderscores_of_ne underscore, ← ih, splitUnderscores, if_neg underscore]
      cases splitUnderscores rest with
      | nil => rfl
      | cons part parts => rfl

/-! ## Names -/

theorem plain_dropUnderscores (plain : Plain chars) : Plain (dropUnderscores chars) :=
  plain.subset List.filter_sublist.subset

theorem plain_of_dropUnderscores (plain : Plain (dropUnderscores chars)) : Plain chars := by
  intro char member
  by_cases underscore : char = '_'
  · rw [underscore]
    decide
  · exact plain char (List.mem_filter.mpr ⟨member, decide_eq_true underscore⟩)

theorem dropUnderscores_lower (plain : Plain chars) :
    dropUnderscores (lower chars) = lower (dropUnderscores chars) := by
  rw [lower_eq_flatMap plain, lower_eq_flatMap (plain_dropUnderscores plain)]
  clear plain
  induction chars with
  | nil => rfl
  | cons char rest ih =>
    rw [List.flatMap_cons, dropUnderscores_append, ih]
    by_cases underscore : char = '_'
    · rw [underscore, dropUnderscores_underscore]
      rfl
    · rw [dropUnderscores_of_not_mem (not_mem_lowerOf underscore),
        dropUnderscores_of_ne underscore, List.flatMap_cons]

theorem dropUnderscores_breaks (chars : List Char) :
    dropUnderscores (breakBeforeCapitals (breakBeforeWords chars)) = dropUnderscores chars := by
  rw [dropUnderscores_breakBeforeCapitals, dropUnderscores_breakBeforeWords]

theorem plain_breaks (plain : Plain chars) :
    Plain (breakBeforeCapitals (breakBeforeWords chars)) :=
  plain_of_dropUnderscores (dropUnderscores_breaks chars ▸ plain_dropUnderscores plain)

theorem dropUnderscores_snakeCase {name : String} (plain : Plain name.toList) :
    dropUnderscores (snakeCase name).toList = bare name.toList ∧
      Plain (snakeCase name).toList := by
  have plainCut := plain_breaks plain
  rw [snakeCase, String.toList_ofList, dropUnderscores_lower plainCut, dropUnderscores_breaks]
  exact ⟨rfl, plain_lower plainCut⟩

theorem bare_snakeCase {name : String} (plain : Plain name.toList) :
    bare (snakeCase name).toList = bare name.toList := by
  rw [bare, (dropUnderscores_snakeCase plain).1, bare, lower_lower (plain_dropUnderscores plain)]

private theorem lower_flatMap_capitalize {parts : List (List Char)}
    (plain : Plain parts.flatten) :
    lower (parts.flatMap capitalize) = lower parts.flatten ∧
      Plain (parts.flatMap capitalize) := by
  induction parts with
  | nil => exact ⟨rfl, plain⟩
  | cons part rest ih =>
    have plainPart := plain.subset (List.subset_append_left part rest.flatten)
    have plainRest := plain.subset (List.subset_append_right part rest.flatten)
    obtain ⟨same, plainLater⟩ := ih plainRest
    have plainWhole : Plain (capitalize part ++ rest.flatMap capitalize) :=
      List.forall_mem_append.mpr ⟨plain_capitalize plainPart, plainLater⟩
    refine ⟨?_, plainWhole⟩
    rw [lower_eq_flatMap plain, List.flatMap_cons, lower_eq_flatMap plainWhole, List.flatten_cons,
      List.flatMap_append, List.flatMap_append, ← lower_eq_flatMap plainPart,
      ← lower_eq_flatMap plainRest, ← lower_eq_flatMap (plain_capitalize plainPart),
      ← lower_eq_flatMap plainLater, lower_capitalize plainPart, same]

theorem bare_pascalCase {name : String} (plain : Plain name.toList) :
    bare (pascalCase name).toList = bare name.toList := by
  obtain ⟨kept, plainWords⟩ := dropUnderscores_snakeCase plain
  have joined := flatten_splitUnderscores (snakeCase name).toList
  have plainParts : Plain (splitUnderscores (snakeCase name).toList).flatten :=
    joined ▸ plain_dropUnderscores plainWords
  rw [bare, dropUnderscores_of_not_mem (not_mem_pascalCase name), pascalCase,
    String.toList_ofList, (lower_flatMap_capitalize plainParts).1, joined, kept, bare,
    lower_lower (plain_dropUnderscores plain)]

/-- Two names with one Pascal form differ in underscores and letter case at most. -/
theorem bare_eq_of_pascalCase_eq {first second : String} (plainFirst : Plain first.toList)
    (plainSecond : Plain second.toList) (same : pascalCase first = pascalCase second) :
    bare first.toList = bare second.toList := by
  rw [← bare_pascalCase plainFirst, same, bare_pascalCase plainSecond]

end ChainedSdk.Text
