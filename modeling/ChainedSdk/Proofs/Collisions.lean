import ChainedSdk.Proofs.CaseFolding
import ChainedSdk.Proofs.Listings
import Mathlib
/-!
# Models that want one name

The name of a model tells where it stands: the kind of its source, and up to letter case and
underscores the source and the response keys on the way. So two models want one name only where two
definitions of one kind, or two fields of one selection, have one Pascal form, and extraction stops
at the first two of these.
-/

namespace ChainedSdk

open Names Text

/-- An error that tells of two models with one name. -/
def Error.Collides (error : Error) : Prop :=
  ∃ name firstKind first secondKind second,
    error = .duplicateModel name firstKind first secondKind second

/-! ## What a name tells -/

/-- What the name of a root model ends in. -/
def SourceKind.suffix : SourceKind → String
  | .operation .query => "Query"
  | .operation .mutation => "Mutation"
  | .operation .subscription => "Subscription"
  | .fragment => "Fragment"

namespace Names

def rootModel (source : String) (kind : SourceKind) : String := pascalCase source ++ kind.suffix

/-- The name of the model at the end of a path of response keys. -/
def modelAt (source : String) (kind : SourceKind) (path : List String) : String :=
  path.foldl nestedModel (rootModel source kind)

theorem operationModel_eq (operation : String) (kind : OperationKind) :
    operationModel operation kind = rootModel operation (.operation kind) := by
  have spelled : pascalCase kind.text = (SourceKind.operation kind).suffix := by
    cases kind with
    | query => cbv
    | mutation => cbv
    | subscription => cbv
  rw [operationModel, rootModel, spelled]

theorem fragmentModel_eq (fragment : String) :
    fragmentModel fragment = rootModel fragment .fragment := rfl

theorem not_mem_rootModel (source : String) (kind : SourceKind) :
    '_' ∉ (rootModel source kind).toList := by
  rw [rootModel, String.toList_append, List.mem_append, not_or]
  refine ⟨not_mem_pascalCase source, ?_⟩
  cases kind with
  | operation kind => cases kind <;> decide
  | fragment => decide

private theorem kind_eq_of_suffix {kind other : SourceKind}
    (ends : kind.suffix.toList <:+ other.suffix.toList) : kind = other := by
  revert ends
  cases kind with
  | operation kind =>
    cases other with
    | operation other => cases kind <;> cases other <;> decide
    | fragment => cases kind <;> decide
  | fragment =>
    cases other with
    | operation other => cases other <;> decide
    | fragment => decide

theorem rootModel_inj {source other : String} {kind otherKind : SourceKind} :
    rootModel source kind = rootModel other otherKind ↔
      kind = otherKind ∧ pascalCase source = pascalCase other := by
  constructor
  · intro same
    have lists := congrArg String.toList same
    rw [rootModel, rootModel, String.toList_append, String.toList_append] at lists
    -- The suffix that begins first ends in the other one, and no suffix ends in another.
    have sameKind : kind = otherKind := by
      rcases List.append_eq_append_iff.mp lists with ⟨_, _, longer⟩ | ⟨_, _, longer⟩
      · exact (kind_eq_of_suffix ⟨_, longer.symm⟩).symm
      · exact kind_eq_of_suffix ⟨_, longer.symm⟩
    subst sameKind
    exact ⟨rfl, String.toList_inj.mp (List.append_cancel_right lists)⟩
  · rintro ⟨rfl, same⟩
    rw [rootModel, rootModel, same]

theorem nestedModel_inj {parent key other : String} :
    nestedModel parent key = nestedModel parent other ↔ pascalCase key = pascalCase other := by
  constructor
  · intro same
    have lists := congrArg String.toList same
    rw [toList_nestedModel, toList_nestedModel] at lists
    exact String.toList_inj.mp (List.cons.inj (List.append_cancel_left lists)).2
  · intro same
    rw [nestedModel, nestedModel, same]

private theorem toList_foldl_nestedModel (root : String) (path : List String) :
    (path.foldl nestedModel root).toList =
      root.toList ++ path.flatMap fun key => '_' :: (pascalCase key).toList := by
  induction path generalizing root with
  | nil => exact (List.append_nil _).symm
  | cons key rest ih =>
    rw [List.foldl_cons, ih, toList_nestedModel, List.append_assoc, List.flatMap_cons]

private theorem isTail_flatMap (path : List String) :
    IsTail (path.flatMap fun key => '_' :: (pascalCase key).toList) := by
  cases path with
  | nil => exact isTail_nil
  | cons key rest => exact isTail_underscore _

private theorem map_pascalCase_eq {path other : List String}
    (same : (path.flatMap fun key => '_' :: (pascalCase key).toList) =
      other.flatMap fun key => '_' :: (pascalCase key).toList) :
    path.map pascalCase = other.map pascalCase := by
  induction path generalizing other with
  | nil =>
    cases other with
    | nil => rfl
    | cons key rest => cases same
  | cons key rest ih =>
    cases other with
    | nil => cases same
    | cons otherKey otherRest =>
      obtain ⟨sameWord, later⟩ := eq_of_append_tail (not_mem_pascalCase key)
        (not_mem_pascalCase otherKey) (isTail_flatMap rest) (isTail_flatMap otherRest)
        (List.cons.inj same).2
      rw [List.map_cons, List.map_cons, String.toList_inj.mp sameWord, ih later]

/-- The name of a model tells the kind of its source, and the Pascal forms of the source and of all
response keys on the way. -/
theorem modelAt_inj {source other : String} {kind otherKind : SourceKind}
    {path otherPath : List String} :
    modelAt source kind path = modelAt other otherKind otherPath ↔
      kind = otherKind ∧ pascalCase source = pascalCase other ∧
        path.map pascalCase = otherPath.map pascalCase := by
  have folded (root : String) (path : List String) :
      path.foldl nestedModel root = (path.map pascalCase).foldl (fun name word =>
        name ++ "_" ++ word) root := by
    rw [List.foldl_map]
    rfl
  constructor
  · intro same
    have lists := congrArg String.toList same
    rw [modelAt, modelAt, toList_foldl_nestedModel, toList_foldl_nestedModel] at lists
    obtain ⟨sameRoot, sameTail⟩ := eq_of_append_tail (not_mem_rootModel source kind)
      (not_mem_rootModel other otherKind) (isTail_flatMap path) (isTail_flatMap otherPath) lists
    obtain ⟨sameKind, sameSource⟩ := rootModel_inj.mp (String.toList_inj.mp sameRoot)
    exact ⟨sameKind, sameSource, map_pascalCase_eq sameTail⟩
  · rintro ⟨rfl, sameSource, samePath⟩
    rw [modelAt, modelAt, folded, samePath, ← folded, rootModel_inj.mpr ⟨rfl, sameSource⟩]

end Names

namespace Context

/-- A site of some definitions: the root selection of one of them, or what is selected inside a
field of another site. -/
inductive Arises (context : Context) (definitions : List Definition) : ModelSite → Prop
  | root {definition : Definition} {site : ModelSite} (member : definition ∈ definitions)
      (found : context.siteOf definition = .ok (some site)) : Arises context definitions site
  | nested {outer inner : ModelSite} {entries : List (String × Pick)} {entry : String × Pick}
      {field : ModelField} (arises : Arises context definitions outer)
      (inlines : context.Inlines outer.owner outer.selections entries)
      (member : entry ∈ (Table.ofList entries).toList)
      (resolved : context.resolve outer entry.1 entry.2 = .ok (field, some inner)) :
      Arises context definitions inner

/-- Two sites that want one name: those of two operations of one kind or of two fragments, or those
inside two fields of one selection, where in each case the names or the response keys have one
Pascal form. -/
inductive Clash (context : Context) (definitions : List Definition) : ModelSite → ModelSite → Prop
  | operations {earlier later : OperationDefinition} {name other : String}
      {first second : ModelSite}
      (ordered : [Definition.operation earlier, .operation later].Sublist definitions)
      (isFirst : context.operationSite earlier = .ok first)
      (isSecond : context.operationSite later = .ok second)
      (isNamed : earlier.name? = some name) (isOther : later.name? = some other)
      (sameKind : earlier.kind = later.kind) (alike : pascalCase name = pascalCase other) :
      Clash context definitions first second
  | fragments {earlier later : FragmentDefinition} {first second : ModelSite}
      (ordered : [Definition.fragment earlier, .fragment later].Sublist definitions)
      (isFirst : context.fragmentSite earlier = .ok first)
      (isSecond : context.fragmentSite later = .ok second)
      (alike : pascalCase earlier.name = pascalCase later.name) :
      Clash context definitions first second
  | keys {outer first second : ModelSite} {entries : List (String × Pick)} {key other : String}
      {pick otherPick : Pick} {field otherField : ModelField}
      (arises : context.Arises definitions outer)
      (inlines : context.Inlines outer.owner outer.selections entries)
      (ordered : [(key, pick), (other, otherPick)].Sublist (Table.ofList entries).toList)
      (isFirst : context.resolve outer key pick = .ok (field, some first))
      (isSecond : context.resolve outer other otherPick = .ok (otherField, some second))
      (alike : pascalCase key = pascalCase other) : Clash context definitions first second

variable {context : Context} {definitions : List Definition} {site first second : ModelSite}
  {sites nested : List ModelSite} {model : Model} {models : List Model}
  {made after : Table Model} {depth : Nat} {error : Error}

theorem operationSite_eq_ok {operation : OperationDefinition}
    (found : context.operationSite operation = .ok site) :
    ∃ name root, operation.name? = some name ∧ context.rootType? operation.kind = some root ∧
      site = ⟨rootModel name (.operation operation.kind), root, operation.selections, name,
        .operation operation.kind, []⟩ := by
  unfold operationSite at found
  split at found
  · cases found
  · next name isName =>
    split at found
    · cases found
    · next root isRoot =>
      refine ⟨name, root, isName, isRoot, ?_⟩
      rw [← operationModel_eq]
      exact (Except.ok.inj found).symm

theorem fragmentSite_eq_ok {fragment : FragmentDefinition}
    (found : context.fragmentSite fragment = .ok site) :
    ∃ owner, context.type? fragment.typeCondition = some owner ∧
      site = ⟨rootModel fragment.name .fragment, owner, fragment.selections, fragment.name,
        .fragment, []⟩ := by
  obtain ⟨owner, known, same⟩ := Outcome.bind_eq_ok_iff.mp found
  refine ⟨owner, requireType_eq_ok_iff.mp known, ?_⟩
  rw [← fragmentModel_eq]
  exact (Except.ok.inj same).symm

theorem Arises.name_eq (arises : context.Arises definitions site) :
    site.name = modelAt site.source site.sourceKind site.path := by
  induction arises with
  | root _ found =>
    rcases siteOf_eq_some found with ⟨_, _, _, _, _, _, rfl⟩ | ⟨_, _, _, _, rfl⟩
    · exact operationModel_eq _ _
    · exact fragmentModel_eq _
  | nested _ _ _ resolved ih =>
    obtain ⟨_, _, isNested⟩ := spec_of_resolve resolved
    obtain ⟨block, rfl⟩ := isNested _ rfl
    show nestedModel _ _ = modelAt _ _ (_ ++ [_])
    rw [ih, modelAt, modelAt, List.foldl_append]
    rfl

theorem Clash.name_eq (clash : context.Clash definitions first second) :
    first.name = second.name := by
  cases clash with
  | operations _ isFirst isSecond isNamed isOther sameKind alike =>
    obtain ⟨_, _, isName, _, rfl⟩ := operationSite_eq_ok isFirst
    obtain ⟨_, _, isOtherName, _, rfl⟩ := operationSite_eq_ok isSecond
    cases isName.symm.trans isNamed
    cases isOtherName.symm.trans isOther
    exact rootModel_inj.mpr ⟨congrArg SourceKind.operation sameKind, alike⟩
  | fragments _ isFirst isSecond alike =>
    obtain ⟨_, _, rfl⟩ := fragmentSite_eq_ok isFirst
    obtain ⟨_, _, rfl⟩ := fragmentSite_eq_ok isSecond
    exact rootModel_inj.mpr ⟨rfl, alike⟩
  | keys _ _ _ isFirst isSecond alike =>
    rw [name_of_resolve isFirst, name_of_resolve isSecond]
    exact nestedModel_inj.mpr alike

/-! ## The collision that is reported -/

/-- A failure that tells of two models with one name, if it does, tells of two sites that clash. -/
def Tells (context : Context) (definitions : List Definition) (error : Error) : Prop :=
  error.Collides → ∃ first second, context.Clash definitions first second ∧
    error = .duplicateModel second.name first.sourceKind first.source second.sourceKind
      second.source

theorem tells_of_not_collides (other : ¬error.Collides) : context.Tells definitions error :=
  fun collides => absurd collides other

/-- A site whose name is taken by the models of one that it clashes with is told of. -/
theorem Clash.tells (clash : context.Clash definitions first second)
    (taken : made.get? second.name = some model) (sameSource : model.source = first.source)
    (sameKind : model.sourceKind = first.sourceKind)
    (failed : context.addSite depth second made = .error error) :
    context.Tells definitions error := by
  cases depth with
  | zero =>
    cases failed
    exact tells_of_not_collides (by simp [Error.Collides])
  | succ depth =>
    rw [addSite_taken taken] at failed
    cases failed
    exact fun _ => ⟨first, second, clash, by rw [sameSource, sameKind]⟩

private theorem pair_sublist_of_mem {α : Type} {done : List α} {earlier : α}
    (member : earlier ∈ done) (later : α) (rest : List α) :
    [earlier, later].Sublist (done ++ later :: rest) :=
  (List.singleton_sublist.mpr member).append (List.singleton_sublist.mpr List.mem_cons_self)

/-- All models of a table that lie in some scope come from some sites, whose own models are there as
well. -/
def Traced (scope : String → Prop) (origins : ModelSite → Prop) (made : Table Model) : Prop :=
  ∀ name model, scope name → made.get? name = some model → ∃ origin, origins origin ∧
    Under origin.name name ∧ (made.get? origin.name).isSome ∧ model.source = origin.source ∧
    model.sourceKind = origin.sourceKind

theorem Fills.source_eq {picks : List (String × Pick)} {fields : List ModelField}
    (fills : context.Fills site picks made fields after) {name : String}
    (present : after.get? name = some model) : made.get? name = some model ∨
      model.source = site.source ∧ model.sourceKind = site.sourceKind := by
  induction fills with
  | nil => exact Or.inl present
  | leaf _ _ ih => exact ih present
  | @nested site inner _ _ _ made half _ _ _ _ _ resolved _ _ _ _ ihInside ihFurther =>
    obtain ⟨_, _, isNested⟩ := spec_of_resolve resolved
    obtain ⟨block, rfl⟩ := isNested inner rfl
    rcases ihFurther present with before | new
    · rw [Table.get?_insert] at before
      split at before
      · cases before
        exact Or.inr ⟨rfl, rfl⟩
      · exact ihInside before
    · exact Or.inr new

theorem Makes.origin (makes : context.Makes site made after) {name : String}
    (present : after.get? name = some model) : made.get? name = some model ∨
      Under site.name name ∧ model.source = site.source ∧ model.sourceKind = site.sourceKind := by
  cases before : made.get? name with
  | some held => exact Or.inl ((makes.keeps before).symm.trans present)
  | none =>
    right
    rcases makes.added (by rw [present]; rfl) with early | under
    · rw [before] at early
      cases early
    refine ⟨under, ?_⟩
    obtain ⟨_, entries, fields, half, _, fills, rfl⟩ := makes
    rw [Table.get?_insert] at present
    split at present
    · cases present
      exact ⟨rfl, rfl⟩
    · refine (fills.source_eq present).resolve_left ?_
      simp [before]

theorem Traced.makes {scope : String → Prop} {origins : ModelSite → Prop}
    (traced : Traced scope origins made) (makes : context.Makes site made after) :
    Traced scope (fun origin => origins origin ∨ origin = site) after := by
  intro name model inScope present
  rcases makes.origin present with before | ⟨under, fromSite⟩
  · obtain ⟨origin, isOrigin, under, taken, fromOrigin⟩ := traced name model inScope before
    obtain ⟨held, isHeld⟩ := Option.isSome_iff_exists.mp taken
    exact ⟨origin, Or.inl isOrigin, under, by rw [makes.keeps isHeld]; rfl, fromOrigin⟩
  · exact ⟨site, Or.inr rfl, under, makes.taken, fromSite⟩

theorem Traced.mono {scope : String → Prop} {origins more : ModelSite → Prop}
    (traced : Traced scope origins made) (imp : ∀ origin, origins origin → more origin) :
    Traced scope more made := by
  intro name model inScope present
  obtain ⟨origin, isOrigin, rest⟩ := traced name model inScope present
  exact ⟨origin, imp origin isOrigin, rest⟩

def Inside (context : Context) (site : ModelSite) (picks : List (String × Pick))
    (inner : ModelSite) : Prop :=
  ∃ entry ∈ picks, ∃ field, context.resolve site entry.1 entry.2 = .ok (field, some inner)

theorem Inside.mono {picks more : List (String × Pick)} {inner : ModelSite}
    (inside : context.Inside site picks inner) (subset : picks ⊆ more) :
    context.Inside site more inner := by
  obtain ⟨entry, member, field, resolved⟩ := inside
  exact ⟨entry, subset member, field, resolved⟩

section Fields

variable {done : List (String × Pick)} {key : String} {pick : Pick} {field : ModelField}
  {inner : ModelSite}

/-- A name under that of a nested site is taken by an earlier field with the same nested name. -/
theorem Traced.earlier (traced : Traced (Under site.name) (context.Inside site done) made)
    (resolved : context.resolve site key pick = .ok (field, some inner)) {name : String}
    (under : Under inner.name name) (taken : made.get? name = some model) :
    ∃ entry ∈ done, ∃ earlierField origin,
      context.resolve site entry.1 entry.2 = .ok (earlierField, some origin) ∧
      origin.name = inner.name ∧ pascalCase entry.1 = pascalCase key ∧
      (made.get? origin.name).isSome ∧ model.source = origin.source ∧
      model.sourceKind = origin.sourceKind := by
  have isInner := name_of_resolve resolved
  rw [isInner] at under
  obtain ⟨origin, ⟨entry, member, earlierField, isOrigin⟩, underOrigin, present, fromOrigin⟩ :=
    traced name model ((under_nestedModel site.name key).trans under) taken
  have isNested := name_of_resolve isOrigin
  rw [isNested] at underOrigin
  have same := nestedModel_eq_of_under underOrigin under
  exact ⟨entry, member, earlierField, origin, isOrigin, isNested.trans (same.trans isInner.symm),
    nestedModel_inj.mp same, present, fromOrigin⟩

theorem Traced.clear (traced : Traced (Under site.name) (context.Inside site done) made)
    (resolved : context.resolve site key pick = .ok (field, some inner))
    (fresh : made.get? inner.name = none) : Clear inner made := by
  intro name under
  cases taken : made.get? name with
  | none => rfl
  | some model =>
    obtain ⟨_, _, _, origin, _, sameName, _, present, _⟩ := traced.earlier resolved under taken
    rw [sameName, fresh] at present
    cases present

/-- What is made while the fields of a site are filled comes from the sites inside them. -/
theorem Fills.traced {picks : List (String × Pick)} {fields : List ModelField}
    (fills : context.Fills site picks made fields after)
    (traced : Traced (Under site.name) (context.Inside site done) made) :
    Traced (Under site.name) (context.Inside site (done ++ picks)) after := by
  induction fills generalizing done with
  | nil => rwa [List.append_nil]
  | leaf _ _ ih =>
    rw [← List.singleton_append, ← List.append_assoc]
    exact ih (traced.mono fun _ isInside => isInside.mono (List.subset_append_left _ _))
  | @nested site inner key pick _ _ _ _ field _ _ _ resolved fresh inlines inside _ _ ih =>
    rw [← List.singleton_append, ← List.append_assoc]
    refine ih ((traced.makes ⟨fresh, _, _, _, inlines, inside, rfl⟩).mono ?_)
    rintro origin (before | rfl)
    · exact before.mono (List.subset_append_left _ _)
    · exact ⟨(key, pick), List.mem_append_right done (List.mem_singleton_self _), field, resolved⟩

end Fields

theorem addSite_tells (arises : context.Arises definitions site) (clear : Clear site made)
    (failed : context.addSite depth site made = .error error) :
    context.Tells definitions error := by
  induction depth generalizing site made with
  | zero =>
    cases failed
    exact tells_of_not_collides (by simp [Error.Collides])
  | succ depth ih =>
    rw [addSite_fresh (clear site.name (under_self _))] at failed
    rcases Outcome.bind_eq_error_iff.mp failed with unknown | ⟨entries, expanded, onward⟩
    · rcases inlined_eq_error (context.leads_nil _) unknown with ⟨_, rfl⟩ | ⟨_, _, rfl, _⟩
      · exact tells_of_not_collides (by simp [Error.Collides])
      · exact tells_of_not_collides (by simp [Error.Collides])
    · have untouched : Traced (Under site.name) (context.Inside site []) made := by
        intro name model under present
        rw [clear name under] at present
        cases present
      have inlines := inlines_of_inlined expanded
      obtain ⟨before, key, pick, later, fields, half, parts, filled, cause⟩ :=
        exists_of_addFields_eq_error (Outcome.map_eq_error_iff.mp onward)
      -- Whatever has been made under the name of the site comes from the fields before.
      have traced : Traced (Under site.name) (context.Inside site before) half :=
        (fills_of_addFields_addSite filled).traced untouched
      rcases cause with unresolved | ⟨field, inner, resolved, atInner⟩
      · obtain ⟨reference, rfl⟩ := resolve_eq_error unresolved
        exact tells_of_not_collides (by simp [Error.Collides])
      · cases taken : half.get? inner.name with
        | none =>
          refine ih ?_ (traced.clear resolved taken) atInner
          exact .nested arises inlines (parts ▸ List.mem_append_right before List.mem_cons_self)
            resolved
        | some existing =>
          obtain ⟨⟨earlier, earlierPick⟩, member, _, origin, isOrigin, _, alike, _, sameSource,
            sameKind⟩ := traced.earlier resolved (under_self inner.name) taken
          have ordered := parts ▸ pair_sublist_of_mem member (key, pick) later
          have clash : context.Clash definitions origin inner :=
            .keys arises inlines ordered isOrigin resolved alike
          exact clash.tells taken sameSource sameKind atInner

theorem not_collides_of_siteOf {definition : Definition}
    (failed : context.siteOf definition = .error error) : ¬error.Collides := by
  unfold siteOf at failed
  split at failed
  · have failed := Outcome.map_eq_error_iff.mp failed
    unfold operationSite at failed
    split at failed
    · cases failed
      simp [Error.Collides]
    · split at failed
      · cases failed
        simp [Error.Collides]
      · cases failed
  · have failed := Outcome.map_eq_error_iff.mp failed
    rcases Outcome.bind_eq_error_iff.mp failed with unknown | ⟨_, _, impossible⟩
    · simp [(requireType_eq_error unknown).2, Error.Collides]
    · cases impossible
  · cases failed

def RootOf (context : Context) (definitions : List Definition) (root : ModelSite) : Prop :=
  ∃ definition ∈ definitions, context.siteOf definition = .ok (some root)

/-- Root models of one name come from two operations of one kind or from two fragments. -/
theorem clash_of_roots {earlier later : Definition}
    (ordered : [earlier, later].Sublist definitions)
    (isFirst : context.siteOf earlier = .ok (some first))
    (isSecond : context.siteOf later = .ok (some second)) (same : first.name = second.name) :
    context.Clash definitions first second := by
  have inSite {found : Except Error ModelSite} {root : ModelSite}
      (isSite : found.map some = .ok (some root)) : found = .ok root := by
    obtain ⟨_, isRoot, same⟩ := Outcome.map_eq_ok_iff.mp isSite
    rw [isRoot, Option.some.inj same]
  rcases siteOf_eq_some isFirst with ⟨operation, name, _, rfl, isName, _, rfl⟩ |
    ⟨fragment, _, rfl, _, rfl⟩
  · rcases siteOf_eq_some isSecond with ⟨_, other, _, rfl, isOther, _, rfl⟩ | ⟨_, _, rfl, _, rfl⟩
    · rw [operationModel_eq, operationModel_eq, rootModel_inj] at same
      exact .operations ordered (inSite isFirst) (inSite isSecond) isName isOther
        (SourceKind.operation.inj same.1) same.2
    · rw [operationModel_eq, fragmentModel_eq, rootModel_inj] at same
      cases same.1
  · rcases siteOf_eq_some isSecond with ⟨_, _, _, rfl, _, _, rfl⟩ | ⟨other, _, rfl, _, rfl⟩
    · rw [operationModel_eq, fragmentModel_eq, rootModel_inj] at same
      cases same.1
    · rw [fragmentModel_eq, fragmentModel_eq, rootModel_inj] at same
      exact .fragments ordered (inSite isFirst) (inSite isSecond) same.2

section Roots

variable {done rest : List Definition} {definition : Definition}

/-- Root names have no underscore, so a name under that of a root site is taken by a root site of
the same name. -/
theorem Traced.earlierRoot (traced : Traced (fun _ => True) (context.RootOf done) made)
    (found : context.siteOf definition = .ok (some site)) {name : String}
    (under : Under site.name name) (taken : made.get? name = some model) :
    ∃ earlier ∈ done, ∃ root, context.siteOf earlier = .ok (some root) ∧ root.name = site.name ∧
      (made.get? root.name).isSome ∧ model.source = root.source ∧
      model.sourceKind = root.sourceKind := by
  obtain ⟨root, ⟨earlier, member, isRoot⟩, underRoot, present, fromRoot⟩ :=
    traced name model trivial taken
  have same := eq_of_under (not_mem_siteOf isRoot) (not_mem_siteOf found) underRoot under
  exact ⟨earlier, member, root, isRoot, same, present, fromRoot⟩

theorem Traced.clearRoot (traced : Traced (fun _ => True) (context.RootOf done) made)
    (found : context.siteOf definition = .ok (some site)) (fresh : made.get? site.name = none) :
    Clear site made := by
  intro name under
  cases taken : made.get? name with
  | none => rfl
  | some model =>
    obtain ⟨_, _, root, _, sameName, present, _⟩ := traced.earlierRoot found under taken
    rw [sameName, fresh] at present
    cases present

theorem addSites_tells (parts : definitions = done ++ rest)
    (traced : Traced (fun _ => True) (context.RootOf done) made)
    (failed : context.addSites depth rest made = .error error) :
    context.Tells definitions error := by
  induction rest generalizing done made with
  | nil => cases failed
  | cons definition rest ih =>
    have member : definition ∈ definitions := parts ▸ List.mem_append_right done List.mem_cons_self
    have partsNext : definitions = (done ++ [definition]) ++ rest := by
      rw [parts, List.append_assoc]
      rfl
    have kept (root : ModelSite) (isRoot : context.RootOf done root) :
        context.RootOf (done ++ [definition]) root := by
      obtain ⟨earlier, member, found⟩ := isRoot
      exact ⟨earlier, List.mem_append_left _ member, found⟩
    rw [addSites] at failed
    rcases Outcome.bind_eq_error_iff.mp failed with unknown | ⟨site?, found, onward⟩
    · exact tells_of_not_collides (not_collides_of_siteOf unknown)
    cases site? with
    | none => exact ih partsNext (traced.mono kept) onward
    | some site =>
      rcases Outcome.bind_eq_error_iff.mp onward with atSite | ⟨next, added, later⟩
      · cases taken : made.get? site.name with
        | none => exact addSite_tells (.root member found) (traced.clearRoot found taken) atSite
        | some existing =>
          obtain ⟨earlier, isEarlier, root, isRoot, same, _, sameSource, sameKind⟩ :=
            traced.earlierRoot found (under_self site.name) taken
          have ordered := parts ▸ pair_sublist_of_mem isEarlier definition rest
          exact (clash_of_roots ordered isRoot found same).tells taken sameSource sameKind atSite
      · refine ih partsNext ((traced.makes (makes_of_addSite added)).mono ?_) later
        rintro root (before | rfl)
        · exact kept root before
        · exact ⟨definition, List.mem_append_right done List.mem_cons_self, found⟩

end Roots

/-- Extraction tells of two models with one name only where two sites clash. -/
theorem models_tells {documents : List DocumentFile}
    (failed : context.models documents = .error error) :
    context.Tells (definitionsOf documents) error := by
  rw [models_eq] at failed
  have untouched : Traced (fun _ => True) (context.RootOf []) ∅ := by
    intro name model _ present
    cases present
  exact addSites_tells (List.nil_append _).symm untouched (Outcome.map_eq_error_iff.mp failed)

/-! ## Where everything else succeeds -/

/-- An outcome that fails for two models with one name, if at all. -/
def OnlyCollides {α : Type} (outcome : Except Error α) : Prop :=
  ∀ error, outcome = .error error → error.Collides

theorem OnlyCollides.ends {α : Type} {outcome : Except Error α} (only : OnlyCollides outcome) :
    outcome ≠ .error .endlessSelection := by
  intro endless
  simpa [Error.Collides] using only _ endless

theorem OnlyCollides.map {α β : Type} {outcome : Except Error α} (only : OnlyCollides outcome)
    (change : α → β) : OnlyCollides (outcome.map change) :=
  fun error failed => only error (Outcome.map_eq_error_iff.mp failed)

theorem OnlyCollides.bind {α β : Type} {outcome : Except Error α} {next : α → Except Error β}
    (only : OnlyCollides outcome) (onlyNext : ∀ value, OnlyCollides (next value)) :
    OnlyCollides (outcome >>= next) := by
  intro error failed
  rcases Outcome.bind_eq_error_iff.mp failed with first | ⟨value, _, later⟩
  · exact only error first
  · exact onlyNext value error later

/-- Listed models are made at some depth, unless a name is taken. -/
theorem Lists.onlyCollides (lists : context.Lists sites models) :
    ∃ depth, ∀ made, OnlyCollides (context.addAll depth sites made) := by
  induction lists with
  | nil => exact ⟨0, fun _ _ impossible => by cases impossible⟩
  | @site site model nested rest inside later shows_ _ _ ihInside ihLater =>
    obtain ⟨entries, resolved, inlines, each, rfl, rfl⟩ := shows_.inlines
    obtain ⟨depth, onlyInside⟩ := ihInside
    obtain ⟨depthLater, onlyLater⟩ := ihLater
    have onlySite (made : Table Model) : OnlyCollides (context.addSite (depth + 1) site made) := by
      cases taken : made.get? site.name with
      | some existing =>
        rw [addSite_taken taken]
        rintro _ ⟨⟩
        exact ⟨_, _, _, _, _, rfl⟩
      | none =>
        rw [addSite_of_inlines taken inlines, addFields_eq_addAll each]
        exact ((onlyInside made).map _).map _
    -- At the greater of the two depths neither half ends otherwise than at its own.
    refine ⟨max (depth + 1) depthLater, fun made => ?_⟩
    rw [addAll_cons, addSite_mono (Nat.le_max_left _ _) (onlySite made).ends]
    refine (onlySite made).bind fun next => ?_
    rw [addAll_mono (Nat.le_max_right _ _) (onlyLater next).ends]
    exact onlyLater next

theorem Lists.of_mem (lists : context.Lists sites models) (member : site ∈ sites) :
    ∃ model nested inside, context.Shows site model nested ∧ context.Lists nested inside ∧
      model ∈ models ∧ inside ⊆ models := by
  induction lists with
  | nil => cases member
  | @site own model nested rest inside later shows_ before _ _ ih =>
    rcases List.mem_cons.mp member with rfl | isRest
    · exact ⟨model, nested, inside, shows_, before,
        List.mem_append_right inside List.mem_cons_self, List.subset_append_left inside _⟩
    · obtain ⟨found, deeper, innermost, isShown, listed, isLater, subset⟩ := ih isRest
      have further : later ⊆ inside ++ model :: later :=
        fun _ isOne => List.mem_append_right inside (List.mem_cons_of_mem model isOne)
      exact ⟨found, deeper, innermost, isShown, listed, further isLater,
        fun _ isOne => further (subset isOne)⟩

theorem Inlines.unique {owner : TypeDescriptor} {selections : List Selection}
    {entries others : List (String × Pick)} (inlines : context.Inlines owner selections entries)
    (inlinesToo : context.Inlines owner selections others) : entries = others := by
  have expanded : context.inlined "" [] owner selections = .ok entries :=
    inlines.inlined_eq fun _ _ _ _ => List.not_mem_nil
  rw [inlinesToo.inlined_eq fun _ _ _ _ => List.not_mem_nil] at expanded
  exact (Except.ok.inj expanded).symm

section Shown

variable {entries : List (String × Pick)} {inner : ModelSite} {field otherField : ModelField}
  {entry other : String × Pick}

theorem Shows.mem_nested (shows_ : context.Shows site model nested)
    (inlines : context.Inlines site.owner site.selections entries)
    (member : entry ∈ (Table.ofList entries).toList)
    (resolved : context.resolve site entry.1 entry.2 = .ok (field, some inner)) :
    inner ∈ nested := by
  obtain ⟨others, results, inlinesToo, every, _, rfl⟩ := shows_.inlines
  cases inlines.unique inlinesToo
  obtain ⟨result, isResult, found⟩ := Outcome.exists_of_forall₂_left every member
  cases found.symm.trans resolved
  exact List.mem_filterMap.mpr ⟨_, isResult, rfl⟩

/-- The sites inside two fields of a shown site stand in the order of the fields. -/
theorem Shows.nested_sublist (shows_ : context.Shows site model nested)
    (inlines : context.Inlines site.owner site.selections entries)
    (ordered : [entry, other].Sublist (Table.ofList entries).toList)
    (isFirst : context.resolve site entry.1 entry.2 = .ok (field, some first))
    (isSecond : context.resolve site other.1 other.2 = .ok (otherField, some second)) :
    [first, second].Sublist nested := by
  obtain ⟨others, results, inlinesToo, every, _, rfl⟩ := shows_.inlines
  cases inlines.unique inlinesToo
  obtain ⟨kept, related, within⟩ := Outcome.forall₂_of_sublist every ordered
  cases related with
  | cons atFirst rest =>
    cases rest with
    | cons atSecond none_ =>
      cases none_
      cases atFirst.symm.trans isFirst
      cases atSecond.symm.trans isSecond
      exact within.filterMap Prod.snd

end Shown

section Listed

variable (found : List.Forall₂ (fun definition site => context.siteOf definition = .ok (some site))
  (definitions.filter (·.selects)) sites)
include found

theorem Arises.shows (arises : context.Arises definitions site)
    (lists : context.Lists sites models) : ∃ model nested inside,
      context.Shows site model nested ∧ context.Lists nested inside ∧ model ∈ models ∧
      inside ⊆ models := by
  induction arises with
  | @root definition site member isSite =>
    have selects : definition ∈ definitions.filter (·.selects) :=
      List.mem_filter.mpr ⟨member, selects_of_siteOf isSite⟩
    obtain ⟨other, isOther, same⟩ := Outcome.exists_of_forall₂_left found selects
    cases same.symm.trans isSite
    exact lists.of_mem isOther
  | nested _ inlines member resolved ih =>
    obtain ⟨_, nested, inside, shows_, listed, _, subset⟩ := ih
    obtain ⟨model, deeper, innermost, isShown, further, isModel, within⟩ :=
      listed.of_mem (shows_.mem_nested inlines member resolved)
    exact ⟨model, deeper, innermost, isShown, further, subset isModel,
      fun _ isOne => subset (within isOne)⟩

theorem Clash.not_nodup (clash : context.Clash definitions first second)
    (lists : context.Lists sites models) : ¬(models.map (·.name)).Nodup := by
  intro distinct
  have whole := lists.references_perm.nodup_iff.mpr distinct
  have apart {some_ : List ModelSite} (ordered : [first, second].Sublist some_)
      (distinct : (some_.map (·.name)).Nodup) : False := by
    have differ := distinct.sublist (ordered.map (·.name))
    rw [List.map_cons, List.map_cons, clash.name_eq] at differ
    exact (List.nodup_cons.mp differ).1 List.mem_cons_self
  have roots {earlier later : Definition} (ordered : [earlier, later].Sublist definitions)
      (isFirst : context.siteOf earlier = .ok (some first))
      (isSecond : context.siteOf later = .ok (some second)) : False := by
    have selected := ordered.filter (·.selects)
    rw [List.filter_cons_of_pos (selects_of_siteOf isFirst),
      List.filter_cons_of_pos (selects_of_siteOf isSecond)] at selected
    obtain ⟨kept, related, within⟩ := Outcome.forall₂_of_sublist found selected
    cases related with
    | cons atFirst rest =>
      cases rest with
      | cons atSecond none_ =>
        cases none_
        cases atFirst.symm.trans isFirst
        cases atSecond.symm.trans isSecond
        exact apart within whole.of_append_left
  cases clash with
  | operations ordered isFirst isSecond _ _ _ _ =>
    exact roots ordered (Outcome.map_eq_ok_iff.mpr ⟨first, isFirst, rfl⟩)
      (Outcome.map_eq_ok_iff.mpr ⟨second, isSecond, rfl⟩)
  | fragments ordered isFirst isSecond _ =>
    exact roots ordered (Outcome.map_eq_ok_iff.mpr ⟨first, isFirst, rfl⟩)
      (Outcome.map_eq_ok_iff.mpr ⟨second, isSecond, rfl⟩)
  | keys arises inlines ordered isFirst isSecond _ =>
    obtain ⟨model, nested, _, shows_, _, isModel, _⟩ := arises.shows found lists
    refine apart (shows_.nested_sublist inlines ordered isFirst isSecond) ?_
    rw [← shows_.references_eq]
    exact (List.nodup_flatMap.mp whole.of_append_right).1 model isModel

end Listed

/-- Where all sites of the documents can be listed, which asks for everything but distinct names,
extraction fails exactly where two operations of one kind, two fragments or two fields with
selections of one site have one Pascal form. It tells of two such sites, and no other sites have one
name. A Pascal form has no underscore, and keeps of a name all but its underscores and letter
case. -/
theorem models_collide_iff {documents : List DocumentFile}
    (found : List.Forall₂ (fun definition site => context.siteOf definition = .ok (some site))
      ((definitionsOf documents).filter (·.selects)) sites)
    (lists : context.Lists sites models) :
    ((∃ error, context.models documents = .error error ∧ error.Collides) ↔
      ∃ first second, context.Clash (definitionsOf documents) first second) ∧
    ((¬∃ first second, context.Clash (definitionsOf documents) first second) →
      ∃ extracted, context.models documents = .ok extracted) ∧
    (∀ name firstKind firstSource secondKind secondSource,
      context.models documents =
        .error (.duplicateModel name firstKind firstSource secondKind secondSource) →
      ∃ first second, context.Clash (definitionsOf documents) first second ∧
        (first.name = name ∧ first.sourceKind = firstKind ∧ first.source = firstSource) ∧
        second.name = name ∧ second.sourceKind = secondKind ∧ second.source = secondSource) ∧
    (∀ first second, context.Arises (definitionsOf documents) first →
      context.Arises (definitionsOf documents) second → (first.name = second.name ↔
        first.sourceKind = second.sourceKind ∧
        pascalCase first.source = pascalCase second.source ∧
        first.path.map pascalCase = second.path.map pascalCase)) ∧
    (∀ name, '_' ∉ (pascalCase name).toList) ∧
    ∀ name other : String, (∀ char ∈ name.toList, GraphQL.isNameChar char) →
      (∀ char ∈ other.toList, GraphQL.isNameChar char) →
      pascalCase name = pascalCase other → bare name.toList = bare other.toList := by
  have only : OnlyCollides (context.models documents) := by
    obtain ⟨depth, only⟩ := lists.onlyCollides
    rw [models_eq, addSites_eq_addAll found, addAll_depthBound found (only ∅).ends]
    exact (only ∅).map _
  have collides : (∃ error, context.models documents = .error error ∧ error.Collides) ↔
      ∃ first second, context.Clash (definitionsOf documents) first second := by
    constructor
    · rintro ⟨error, failed, isCollision⟩
      obtain ⟨first, second, clash, _⟩ := models_tells failed isCollision
      exact ⟨first, second, clash⟩
    · rintro ⟨first, second, clash⟩
      cases outcome : context.models documents with
      | error error => exact ⟨error, rfl, only error outcome⟩
      | ok extracted =>
        obtain ⟨others, foundOthers, listed, distinct⟩ := models_eq_ok_iff.mp outcome
        exact absurd distinct (clash.not_nodup foundOthers listed)
  refine ⟨collides, ?_, ?_, ?_, not_mem_pascalCase, ?_⟩
  · intro apart
    cases outcome : context.models documents with
    | ok extracted => exact ⟨extracted, rfl⟩
    | error error => exact absurd (collides.mp ⟨error, outcome, only error outcome⟩) apart
  · intro name firstKind firstSource secondKind secondSource failed
    obtain ⟨first, second, clash, same⟩ := models_tells failed ⟨_, _, _, _, _, rfl⟩
    cases same
    exact ⟨first, second, clash, ⟨clash.name_eq, rfl, rfl⟩, rfl, rfl, rfl⟩
  · intro first second arises arisesToo
    rw [arises.name_eq, arisesToo.name_eq, modelAt_inj]
  · intro name other named otherNamed
    exact bare_eq_of_pascalCase_eq (plain_of_isNameChar named) (plain_of_isNameChar otherNamed)

private def roomType : TypeDescriptor :=
  { name := "Room", kind := .object, fields := [⟨"number", "Int", false, false, none⟩] }

private def houseType : TypeDescriptor :=
  { name := "House", kind := .object, fields := [⟨"room", "Room", false, true, none⟩] }

private def houseContext : Context where
  types := Table.ofList
    [("Int", { name := "Int", kind := .scalar }), ("Room", roomType), ("House", houseType)]
  fragments := ∅
  rootTypes := [(.query, "House")]
  config := {}

private def roomNumber : List Selection := [.field ⟨none, "number", [], []⟩ none]

private def houseRoom (key : String) : FieldHead := ⟨some key, "room", [], []⟩

private def houseFiles : List DocumentFile :=
  [⟨⟨[.operation ⟨none, .query, some "house", [], [], ["big_room", "bigRoom"].map fun key =>
    .field (houseRoom key) (some roomNumber)⟩]⟩, none⟩]

private def houseSite : ModelSite where
  name := operationModel "house" .query
  owner := houseType
  selections := ["big_room", "bigRoom"].map fun key => .field (houseRoom key) (some roomNumber)
  source := "house"
  sourceKind := .operation .query
  path := []

private def numberField : ModelField where
  name := "number"
  fieldName := "number"
  type := { name := "Int", kind := .scalar }
  isOptional := false

private theorem exists_roomModel (key : String) : ∃ model,
    houseContext.Shows (houseSite.nested key roomType roomNumber) model [] := by
  have inlines : houseContext.Inlines roomType roomNumber
      [("number", ⟨⟨none, "number", [], []⟩, none, roomType⟩)] := .field .nil
  have each : List.Forall₂ (fun entry result =>
      houseContext.resolve (houseSite.nested key roomType roomNumber) entry.1 entry.2 = .ok result)
      (Table.ofList [("number", ⟨⟨none, "number", [], []⟩, none, roomType⟩)]).toList
      [(numberField, none)] := .cons rfl .nil
  exact ⟨_, .fields (inlines.gives_collect "house") each⟩

/-- A house with two rooms under keys of one Pascal form. -/
theorem models_collide_house : ∃ sites listed,
    List.Forall₂ (fun definition site => houseContext.siteOf definition = .ok (some site))
      ((definitionsOf houseFiles).filter (·.selects)) sites ∧
    houseContext.Lists sites listed ∧
    ∃ error, houseContext.models houseFiles = .error error ∧ error.Collides := by
  have found : List.Forall₂ (fun definition site =>
      houseContext.siteOf definition = .ok (some site))
      ((definitionsOf houseFiles).filter (·.selects)) [houseSite] := .cons rfl .nil
  have inlines : houseContext.Inlines houseType houseSite.selections
      (["big_room", "bigRoom"].map fun key => (key, ⟨houseRoom key, some roomNumber, houseType⟩)) :=
    .field (.field .nil)
  have resolved (key : String) : houseContext.resolve houseSite key
      ⟨houseRoom key, some roomNumber, houseType⟩ = .ok
        ({ name := key, fieldName := "room", type := roomType,
            model? := some (nestedModel houseSite.name key) },
          some (houseSite.nested key roomType roomNumber)) := rfl
  obtain ⟨first, showsFirst⟩ := exists_roomModel "big_room"
  obtain ⟨second, showsSecond⟩ := exists_roomModel "bigRoom"
  have lists : houseContext.Lists [houseSite] _ :=
    .site (.fields (inlines.gives_collect "house") (.cons (resolved _) (.cons (resolved _) .nil)))
      (.site showsFirst .nil (.site showsSecond .nil .nil)) .nil
  have clash : houseContext.Clash (definitionsOf houseFiles) _ _ :=
    .keys (.root List.mem_cons_self rfl) inlines (List.Sublist.refl _) (resolved _) (resolved _)
      (by cbv)
  exact ⟨[houseSite], _, found, lists, (models_collide_iff found lists).1.mpr ⟨_, _, clash⟩⟩

end Context

end ChainedSdk
