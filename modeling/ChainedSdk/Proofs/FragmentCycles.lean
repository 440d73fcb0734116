import ChainedSdk.Proofs.DepthBound
import ChainedSdk.Schema.Build
import Mathlib.Data.Fintype.Card
import Mathlib.Data.Set.Finite.Basic
/-!
# Cycles of fragments

A fragment can reach itself in two ways. Spreads that stand beside fields make its own fields
endless, and such a cycle is reported. A spread inside a field makes no fields endless but leads
from one model into the next: extraction follows it without end. The main statement says exactly
when extraction does not end and how it ends otherwise.
-/

namespace ChainedSdk

mutual

/-- The blocks of the fields in a selection, at any depth. -/
def Selection.blocks : Selection → List (List Selection)
  | .field _ none => []
  | .field _ (some block) => block :: Selection.blocksOf block
  | .spread _ _ => []
  | .inlineFragment _ _ selections => Selection.blocksOf selections

def Selection.blocksOf : List Selection → List (List Selection)
  | [] => []
  | selection :: rest => selection.blocks ++ Selection.blocksOf rest

end

namespace Context

open Relation

variable {context : Context} {site inner : ModelSite} {made half after : Table Model}
  {depth : Nat} {error : Error}

/-- The first fragment spreads the second one inside a field. -/
def NestedSpreads (context : Context) (first second : String) : Prop :=
  ∃ fragment, context.fragments.get? first = some fragment ∧
    ∃ block ∈ Selection.blocksOf fragment.selections, second ∈ Selection.spreadsOf block

/-- The first fragment spreads the second one anywhere. -/
def SpreadsAnywhere (context : Context) (first second : String) : Prop :=
  context.Spreads first second ∨ context.NestedSpreads first second

/-! ## Where an endless descent leads -/

/-- The block of a selected field stands in the selection set or in a fragment that it needs. -/
theorem Inlines.blocks_subset {owner : TypeDescriptor} {selections : List Selection}
    {entries : List (String × Pick)} (inlines : context.Inlines owner selections entries)
    {key : String} {pick : Pick} (member : (key, pick) ∈ entries) {block : List Selection}
    (isBlock : pick.selections? = some block) :
    (block :: Selection.blocksOf block ⊆ Selection.blocksOf selections ∧
        Selection.fieldCounts block < Selection.fieldCounts selections) ∨
      ∃ needed ∈ Selection.spreadsOf selections, ∃ name fragment,
        ReflTransGen context.Spreads needed name ∧
        context.fragments.get? name = some fragment ∧
        block :: Selection.blocksOf block ⊆ Selection.blocksOf fragment.selections := by
  induction inlines with
  | nil => cases member
  | @field owner head selections? rest later _ ih =>
    rcases List.mem_cons.mp member with here | further
    · cases here
      cases isBlock
      refine Or.inl ⟨List.subset_append_left _ _, ?_⟩
      rw [Selection.fieldCounts, Selection.fieldCount]
      omega
    · rcases ih further with ⟨inside, fewer⟩ | ⟨needed, isNeeded, elsewhere⟩
      · refine Or.inl ⟨List.subset_append_of_subset_right _ inside, ?_⟩
        rw [Selection.fieldCounts]
        omega
      · exact Or.inr ⟨needed, List.mem_append_right _ isNeeded, elsewhere⟩
  | @inlineFragment owner innerOwner condition? directives selections rest inner later _ _ _
      ihInside ihLater =>
    rw [Selection.fieldCounts, Selection.fieldCount]
    rcases List.mem_append.mp member with here | further
    · rcases ihInside here with ⟨inside, fewer⟩ | ⟨needed, isNeeded, elsewhere⟩
      · exact Or.inl ⟨List.subset_append_of_subset_left _ inside, by omega⟩
      · exact Or.inr ⟨needed, List.mem_append_left _ isNeeded, elsewhere⟩
    · rcases ihLater further with ⟨inside, fewer⟩ | ⟨needed, isNeeded, elsewhere⟩
      · exact Or.inl ⟨List.subset_append_of_subset_right _ inside, by omega⟩
      · exact Or.inr ⟨needed, List.mem_append_right _ isNeeded, elsewhere⟩
  | @spread owner fragmentOwner name directives fragment rest inner later found _ _ _ ihInside
      ihLater =>
    have isHere : name ∈ Selection.spreadsOf (.spread name directives :: rest) :=
      List.mem_append_left _ (List.mem_singleton_self name)
    rcases List.mem_append.mp member with here | further
    · rcases ihInside here with ⟨inside, _⟩ | ⟨needed, isNeeded, other, last, reached, elsewhere⟩
      · exact Or.inr ⟨name, isHere, name, fragment, .refl, found, inside⟩
      · exact Or.inr ⟨name, isHere, other, last, .head ⟨fragment, found, isNeeded⟩ reached,
          elsewhere⟩
    · rcases ihLater further with ⟨inside, fewer⟩ | ⟨needed, isNeeded, elsewhere⟩
      · refine Or.inl ⟨List.subset_append_of_subset_right _ inside, ?_⟩
        rw [Selection.fieldCounts]
        omega
      · exact Or.inr ⟨needed, List.mem_append_right _ isNeeded, elsewhere⟩

theorem Unending.next (unending : context.Unending site made) :
    ∃ inner half, context.Descends site made inner half ∧ context.Unending inner half := by
  obtain ⟨chain, atStart, steps⟩ := unending
  refine ⟨(chain 1).1, (chain 1).2, ?_, fun step => chain (step + 1), rfl, fun step => steps _⟩
  have first := steps 0
  rwa [atStart] at first

/-- An endless descent from one of some blocks comes into a block of a fragment that one of them
needs. -/
theorem Unending.exists_fragment {all : List (List Selection)}
    (unending : context.Unending site made)
    (within : site.selections :: Selection.blocksOf site.selections ⊆ all) :
    ∃ block ∈ all, ∃ needed ∈ Selection.spreadsOf block, ∃ name fragment inner half,
      ReflTransGen context.Spreads needed name ∧ context.fragments.get? name = some fragment ∧
      inner.selections :: Selection.blocksOf inner.selections ⊆
        Selection.blocksOf fragment.selections ∧
      context.Unending inner half := by
  induction size : Selection.fieldCounts site.selections using Nat.strongRecOn
    generalizing site made with
  | ind _ ih =>
    obtain ⟨inner, half, descends, onward⟩ := unending.next
    obtain ⟨entries, key, pick, inlines, isEntry, isBlock, _⟩ := descends.exists_pick
    rcases inlines.blocks_subset isEntry isBlock with
      ⟨inside, fewer⟩ | ⟨needed, isNeeded, name, fragment, reached, found, inFragment⟩
    · exact ih _ (size ▸ fewer) onward
        (fun _ member => within (List.mem_cons_of_mem _ (inside member))) rfl
    · exact ⟨site.selections, within List.mem_cons_self, needed, isNeeded, name, fragment, inner,
        half, reached, found, inFragment, onward⟩

/-- One fragment spreads a second one inside a field, which leads to a third one. -/
private def LeadsInto (context : Context) (first last : String) : Prop :=
  ∃ second, context.NestedSpreads first second ∧ ReflTransGen context.Spreads second last

/-- An endless descent starts in a block of a fragment. -/
private def Endless (context : Context) (name : String) : Prop :=
  ∃ fragment site made, context.fragments.get? name = some fragment ∧
    site.selections :: Selection.blocksOf site.selections ⊆
      Selection.blocksOf fragment.selections ∧
    context.Unending site made

private theorem Endless.next {name : String} (endless : Endless context name) :
    ∃ last, LeadsInto context name last ∧ Endless context last := by
  obtain ⟨fragment, site, made, found, within, unending⟩ := endless
  obtain ⟨block, isBlock, needed, isNeeded, last, lastFragment, inner, half, reached, isLast,
    inFragment, onward⟩ := unending.exists_fragment within
  exact ⟨last, ⟨needed, ⟨fragment, found, block, isBlock, isNeeded⟩, reached⟩,
    lastFragment, inner, half, isLast, inFragment, onward⟩

/-- Among finitely many fragments, an endless descent comes back to one. -/
private theorem exists_cycle {name : String} (endless : Endless context name) :
    ∃ fragment, TransGen (LeadsInto context) fragment fragment := by
  by_contra acyclic
  -- Without a cycle the fragments would be well-founded, and one of them the last.
  let below (first second : { name // name ∈ context.fragments.keys }) : Prop :=
    TransGen (LeadsInto context) second.1 first.1
  have : Finite { name // name ∈ context.fragments.keys } := List.finite_toSet _
  have : IsTrans _ below := ⟨fun _ _ _ lower upper => upper.trans lower⟩
  have : Std.Irrefl below := ⟨fun fragment cycle => acyclic ⟨fragment.1, cycle⟩⟩
  have founded := Finite.wellFounded_of_trans_of_irrefl below
  have known {other : String} (descends : Endless context other) :
      other ∈ context.fragments.keys := by
    obtain ⟨fragment, _, _, found, _⟩ := descends
    exact (Table.mem_keys_iff _ _).mpr ⟨fragment, found⟩
  have impossible (fragment : { name // name ∈ context.fragments.keys }) :
      ¬Endless context fragment.1 := by
    induction fragment using founded.induction with
    | _ fragment ih =>
      intro descends
      obtain ⟨last, leads, onward⟩ := descends.next
      exact ih ⟨last, known onward⟩ (.single leads) onward
  exact impossible ⟨name, known endless⟩ endless

/-- An endless descent needs a fragment that spreads, inside a field, one that leads back to it. -/
theorem Unending.exists_cycle (unending : context.Unending site made) :
    ∃ first second, context.NestedSpreads first second ∧
      ReflTransGen context.SpreadsAnywhere second first := by
  obtain ⟨_, _, _, _, name, fragment, inner, half, _, found, inFragment, onward⟩ :=
    unending.exists_fragment (List.Subset.refl _)
  obtain ⟨first, cycle⟩ := Context.exists_cycle ⟨fragment, inner, half, found, inFragment, onward⟩
  have widened {one last : String} (reached : ReflTransGen context.Spreads one last) :
      ReflTransGen context.SpreadsAnywhere one last :=
    ReflTransGen.mono (fun _ _ => Or.inl) _ _ reached
  have anywhere {one last : String} (leads : LeadsInto context one last) :
      ReflTransGen context.SpreadsAnywhere one last := by
    obtain ⟨second, nested, reached⟩ := leads
    exact .head (Or.inr nested) (widened reached)
  obtain ⟨next, ⟨second, nested, reached⟩, back⟩ := TransGen.head'_iff.mp cycle
  refine ⟨first, second, nested, (widened reached).trans ?_⟩
  exact ReflTransGen.trans_induction_on back (fun _ => .refl) anywhere
    (fun _ _ first second => first.trans second)

/-! ## How extraction ends -/

/-- What else can be wrong with documents: something unknown, two models of one name, or an
operation without a name. -/
inductive Flaw : Error → Prop
  | unresolved (source : String) (reference : Reference) : Flaw (.unresolved source reference)
  | duplicateModel (name : String) (firstKind : SourceKind) (first : String)
      (secondKind : SourceKind) (second : String) :
      Flaw (.duplicateModel name firstKind first secondKind second)
  | anonymousOperation (kind : OperationKind) : Flaw (.anonymousOperation kind)

/-- A cause that ends extraction: a cycle of fragments that spread each other beside their fields,
or a flaw. -/
def Stops (context : Context) (error : Error) : Prop :=
  (∃ passed name, error = .fragmentCycle passed name ∧ TransGen context.Spreads name name) ∨
    Flaw error

theorem Stops.category (stops : context.Stops error) :
    error.category = .document ∨ error.category = .unresolvedReference := by
  rcases stops with ⟨_, _, rfl, _⟩ | flaw
  · exact Or.inl rfl
  · cases flaw with
    | unresolved => exact Or.inr rfl
    | duplicateModel => exact Or.inl rfl
    | anonymousOperation => exact Or.inl rfl

theorem addSite_stops {error : Error} (failed : context.addSite depth site made = .error error) :
    error = .endlessSelection ∨ context.Stops error := by
  induction depth generalizing site made with
  | zero =>
    cases failed
    exact Or.inl rfl
  | succ depth ih =>
    cases taken : made.get? site.name with
    | some existing =>
      rw [addSite_taken taken] at failed
      cases failed
      exact Or.inr (Or.inr (.duplicateModel _ _ _ _ _))
    | none =>
      rw [addSite_fresh taken] at failed
      rcases Outcome.bind_eq_error_iff.mp failed with unknown | ⟨entries, _, onward⟩
      · rcases inlined_eq_error (context.leads_nil _) unknown with ⟨_, rfl⟩ | cycle
        · exact Or.inr (Or.inr (.unresolved _ _))
        · exact Or.inr (Or.inl cycle)
      · obtain ⟨_, _, _, _, _, _, _, _, unresolved | ⟨_, inner, _, inside⟩⟩ :=
          exists_of_addFields_eq_error (Outcome.map_eq_error_iff.mp onward)
        · obtain ⟨reference, rfl⟩ := resolve_eq_error unresolved
          exact Or.inr (Or.inr (.unresolved _ _))
        · exact ih inside

theorem siteOf_eq_error {definition : Definition} {error : Error}
    (failed : context.siteOf definition = .error error) : Flaw error := by
  unfold siteOf at failed
  split at failed
  · next operation =>
    have failed := Outcome.map_eq_error_iff.mp failed
    unfold operationSite at failed
    split at failed
    · cases failed
      exact .anonymousOperation _
    · split at failed
      · cases failed
        exact .unresolved _ _
      · cases failed
  · next fragment =>
    have failed := Outcome.map_eq_error_iff.mp failed
    rcases Outcome.bind_eq_error_iff.mp failed with unknown | ⟨_, _, impossible⟩
    · rw [(requireType_eq_error unknown).2]
      exact .unresolved _ _
    · cases impossible
  · cases failed

/-- Some definition, reached after the models of those before it, descends without end. -/
def Entangled (context : Context) (definitions : List Definition) (made : Table Model) : Prop :=
  ∃ before definition later half site, definitions = before ++ definition :: later ∧
    context.MakesAll before made half ∧ context.siteOf definition = .ok (some site) ∧
    context.Unending site half

/-- A site that can be made is made, unless the depth is passed. -/
theorem Makes.addSite_eq (makes : context.Makes site made after) (depth : Nat) :
    context.addSite depth site made = .ok after ∨
      context.addSite depth site made = .error .endlessSelection := by
  obtain ⟨fresh, entries, fields, half, inlines, fills, rfl⟩ := makes
  cases depth with
  | zero => exact Or.inr rfl
  | succ depth =>
    rw [addSite_of_inlines fresh inlines]
    rcases fills.addFields_eq depth with filled | endless
    · rw [filled]
      exact Or.inl rfl
    · rw [endless]
      exact Or.inr rfl

private theorem addSites_skip {definition : Definition} {rest : List Definition}
    (nothing : context.siteOf definition = .ok none) :
    context.addSites depth (definition :: rest) made = context.addSites depth rest made := by
  rw [addSites, nothing]
  rfl

private theorem addSites_site {definition : Definition} {rest : List Definition}
    (found : context.siteOf definition = .ok (some site)) :
    context.addSites depth (definition :: rest) made =
      (context.addSite depth site made >>= fun next => context.addSites depth rest next) := by
  rw [addSites, found]
  rfl

theorem addSites_of_entangled {definitions : List Definition}
    (entangled : context.Entangled definitions made) :
    context.addSites depth definitions made = .error .endlessSelection := by
  obtain ⟨before, definition, later, half, site, rfl, makes, found, unending⟩ := entangled
  induction makes with
  | nil =>
    rw [List.nil_append, addSites_site found, unending_iff.mp unending depth]
    rfl
  | skip nothing _ ih =>
    rw [List.cons_append, addSites_skip nothing]
    exact ih unending
  | site isSite makes _ ih =>
    rw [List.cons_append, addSites_site isSite]
    rcases makes.addSite_eq depth with added | endless
    · rw [added]
      exact ih unending
    · rw [endless]
      rfl

theorem entangled_of_addSites {documents : List DocumentFile} {definitions : List Definition}
    (among : definitions ⊆ definitionsOf documents) (rooted : Rooted made)
    (endless : context.addSites (context.depthBound documents) definitions made =
      .error .endlessSelection) : context.Entangled definitions made := by
  induction definitions generalizing made with
  | nil => cases endless
  | cons definition rest ih =>
    have amongRest : rest ⊆ definitionsOf documents :=
      fun _ member => among (List.mem_cons_of_mem _ member)
    cases found : context.siteOf definition with
    | error error =>
      rw [addSites, found] at endless
      cases endless
      cases siteOf_eq_error found
    | ok site? =>
      cases site? with
      | none =>
        rw [addSites_skip found] at endless
        obtain ⟨before, entangled, later, half, site, rfl, makes, isSite, unending⟩ :=
          ih amongRest rooted endless
        exact ⟨definition :: before, entangled, later, half, site, rfl, .skip found makes, isSite,
          unending⟩
      | some site =>
        rw [addSites_site found] at endless
        rcases Outcome.bind_eq_error_iff.mp endless with passed | ⟨next, added, onward⟩
        · have unending := (addSite_depthBound_iff (among List.mem_cons_self) found rooted).mp passed
          exact ⟨[], definition, rest, made, site, rfl, .nil, found, unending⟩
        · have makes := makes_of_addSite added
          obtain ⟨before, entangled, later, half, last, rfl, makesAll, isSite, unending⟩ :=
            ih amongRest (rooted.makes makes (not_mem_siteOf found)) onward
          exact ⟨definition :: before, entangled, later, half, last, rfl,
            .site found makes makesAll, isSite, unending⟩

theorem addSites_stops {definitions : List Definition} {error : Error}
    (failed : context.addSites depth definitions made = .error error) :
    error = .endlessSelection ∨ context.Stops error := by
  induction definitions generalizing made with
  | nil => cases failed
  | cons definition rest ih =>
    rw [addSites] at failed
    rcases Outcome.bind_eq_error_iff.mp failed with flawed | ⟨site?, _, onward⟩
    · exact Or.inr (Or.inr (siteOf_eq_error flawed))
    · cases site? with
      | none => exact ih onward
      | some site =>
        rcases Outcome.bind_eq_error_iff.mp onward with inside | ⟨next, _, further⟩
        · exact addSite_stops inside
        · exact ih further

/-- A fragment whose model has been made does not reach itself beside its fields. -/
theorem MakesAll.not_selfReaching {definitions : List Definition}
    (makes : context.MakesAll definitions made after) {fragment : FragmentDefinition}
    (member : .fragment fragment ∈ definitions)
    (found : context.fragments.get? fragment.name = some fragment) :
    ¬TransGen context.Spreads fragment.name fragment.name := by
  intro cycle
  obtain ⟨next, ⟨same, isFragment, needed⟩, back⟩ := TransGen.head'_iff.mp cycle
  rw [found] at isFragment
  cases isFragment
  rcases makes.makes_of_mem member with nothing | ⟨site, half, next, isSite, made, _⟩
  · obtain ⟨_, _, impossible⟩ := Outcome.map_eq_ok_iff.mp nothing
    cases impossible
  · rcases siteOf_eq_some isSite with ⟨_, _, _, impossible, _⟩ | ⟨_, owner, isSame, _, rfl⟩
    · cases impossible
    · cases isSame
      obtain ⟨_, entries, fields, _, inlines, _, _⟩ := made
      exact inlines.not_selfReaching needed back cycle

/-- Extraction goes on without end exactly where some definition descends without end, for which a
fragment has to lead back to itself through a spread inside a field. Anything else ends, with the
models or with an error of the documents. Where a fragment of the documents reaches itself by
spreads beside its fields, no models come out: unless the descent is endless or the documents have
another flaw, the error is the cycle. -/
theorem models_ends_iff (context : Context) (documents : List DocumentFile) :
    (context.models documents = .error .endlessSelection ↔
      context.Entangled (definitionsOf documents) ∅) ∧
    (context.Entangled (definitionsOf documents) ∅ → ∃ first second,
      context.NestedSpreads first second ∧ ReflTransGen context.SpreadsAnywhere second first) ∧
    (¬context.Entangled (definitionsOf documents) ∅ →
      (∃ models, context.models documents = .ok models) ∨
      ∃ error, context.models documents = .error error ∧
        (error.category = .document ∨ error.category = .unresolvedReference)) ∧
    (∀ passed name, context.models documents = .error (.fragmentCycle passed name) →
      TransGen context.Spreads name name) ∧
    ∀ fragment, .fragment fragment ∈ definitionsOf documents →
      context.fragments.get? fragment.name = some fragment →
      TransGen context.Spreads fragment.name fragment.name →
      ¬context.Entangled (definitionsOf documents) ∅ →
      (∃ passed name, context.models documents = .error (.fragmentCycle passed name)) ∨
        ∃ error, context.models documents = .error error ∧ Flaw error := by
  have endless : context.models documents = .error .endlessSelection ↔
      context.Entangled (definitionsOf documents) ∅ := by
    rw [models_eq, Outcome.map_eq_error_iff]
    exact ⟨entangled_of_addSites (List.Subset.refl _) rooted_empty, addSites_of_entangled⟩
  have stops {error : Error} (failed : context.models documents = .error error) :
      error = .endlessSelection ∨ context.Stops error := by
    rw [models_eq] at failed
    exact addSites_stops (Outcome.map_eq_error_iff.mp failed)
  refine ⟨endless, ?_, ?_, ?_, ?_⟩
  · rintro ⟨_, _, _, _, _, _, _, _, unending⟩
    exact unending.exists_cycle
  · intro ends
    cases outcome : context.models documents with
    | ok models => exact Or.inl ⟨models, rfl⟩
    | error error =>
      rcases stops outcome with rfl | stopped
      · exact absurd (endless.mp outcome) ends
      · exact Or.inr ⟨error, rfl, stopped.category⟩
  · intro passed name failed
    rcases stops failed with impossible | ⟨_, _, same, cycle⟩ | flaw
    · cases impossible
    · cases same
      exact cycle
    · cases flaw
  · intro fragment isFragment found cycle ends
    cases outcome : context.models documents with
    | ok models =>
      obtain ⟨made, makes, _⟩ := makesAll_of_models outcome
      exact absurd cycle (makes.not_selfReaching isFragment found)
    | error error =>
      rcases stops outcome with rfl | ⟨passed, name, rfl, _⟩ | flaw
      · exact absurd (endless.mp outcome) ends
      · exact Or.inl ⟨passed, name, rfl⟩
      · exact Or.inr ⟨error, rfl, flaw⟩

/-! ## A cycle that is not reported -/

private def queryType : TypeDescriptor :=
  { name := "Query", kind := .object, fields := [⟨"node", "Node", false, true, none⟩] }

private def nodeType : TypeDescriptor :=
  { name := "Node", kind := .object, fields := [⟨"child", "Node", false, true, none⟩] }

private def nodeSchema : Document where
  definitions := [
    .type ⟨none, "Query", [], .object [] [⟨none, "node", [], .named "Node", []⟩]⟩,
    .type ⟨none, "Node", [], .object [] [⟨none, "child", [], .named "Node", []⟩]⟩]

/-- The fragment `F` on `Node`, which selects `child` and `F` inside it. -/
private def selfNested : FragmentDefinition :=
  ⟨none, "F", "Node", [], [.field ⟨none, "child", [], []⟩ (some [.spread "F" []])]⟩

private def selfNestedFile : DocumentFile := ⟨⟨[.fragment selfNested]⟩, none⟩

private def nestedSite : Nat → ModelSite
  | 0 => ⟨Names.fragmentModel "F", nodeType, selfNested.selections, "F", .fragment, []⟩
  | step + 1 => (nestedSite step).nested "child" nodeType [.spread "F" []]

private theorem descends_nestedSite {context : Context}
    (found : context.fragments.get? "F" = some selfNested)
    (known : context.type? "Node" = some nodeType) (step : Nat) :
    context.Descends (nestedSite step) ∅ (nestedSite (step + 1)) ∅ := by
  have inside (owner : TypeDescriptor) : context.Inlines owner selfNested.selections
      [("child", ⟨⟨none, "child", [], []⟩, some [.spread "F" []], owner⟩)] := .field .nil
  have resolved : context.resolve (nestedSite step) "child"
      ⟨⟨none, "child", [], []⟩, some [.spread "F" []], nodeType⟩ = .ok
        ({ name := "child", fieldName := "child", type := nodeType,
           model? := some (nestedSite (step + 1)).name }, some (nestedSite (step + 1))) := by
    have required : context.requireType "Node" (nestedSite step).source = .ok nodeType :=
      requireType_eq_ok_iff.mpr known
    have isField : nodeType.field? "child" = some ⟨"child", "Node", false, true, none⟩ := by
      decide
    unfold resolve
    rw [if_neg (by decide), isField]
    dsimp only
    rw [required]
    rfl
  cases step with
  | zero => exact .into rfl (inside nodeType) (List.nil_append _).symm .nil resolved
  | succ step =>
    exact .into rfl (.spread found known (inside nodeType) .nil) (List.nil_append _).symm .nil
      resolved

/-- A fragment that spreads itself inside a field, with nothing else wrong, is followed without
end. -/
theorem models_selfNested : ∃ context,
    Context.ofDocument nodeSchema [selfNestedFile] {} = .ok context ∧
      TransGen context.SpreadsAnywhere "F" "F" ∧
      context.models [selfNestedFile] = .error .endlessSelection := by
  let context : Context := {
    types := (Table.ofList (builtinScalars.map fun entry => (entry.1,
      { name := entry.1, kind := .scalar, target? := some entry.2 }))).insertAll
        [("Query", queryType), ("Node", nodeType)]
    fragments := Table.ofList [("F", selfNested)]
    rootTypes := [(.query, "Query")]
    config := {} }
  have found : context.fragments.get? "F" = some selfNested := rfl
  have known : context.type? "Node" = some nodeType := rfl
  refine ⟨context, rfl, ?_, (context.models_ends_iff _).1.mpr ?_⟩
  · exact .single (Or.inr ⟨selfNested, found, [.spread "F" []], List.mem_singleton_self _,
      List.mem_singleton_self _⟩)
  · refine ⟨[], .fragment selfNested, [], ∅, nestedSite 0, rfl, .nil, ?_, ?_⟩
    · have required : context.requireType "Node" "F" = .ok nodeType :=
        requireType_eq_ok_iff.mpr known
      show (context.fragmentSite selfNested).map some = _
      rw [fragmentSite]
      show (context.requireType "Node" "F" >>= _).map some = _
      rw [required]
      rfl
    · exact ⟨fun step => (nestedSite step, ∅), rfl, descends_nestedSite found known⟩

end Context

end ChainedSdk
