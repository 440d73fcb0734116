import ChainedSdk.Schema.Context
/-!
# Collecting selected fields

A selection set with fragments comes down to the fields under their response keys. Fragment spreads
are expanded in place and inline fragments are merged in; of several selections under one key the
last one counts, at the place of the first. The fields of a fragment are collected once and
remembered.
-/

namespace ChainedSdk

/-- A selected field with its block, and the type that it is a field of. -/
structure Pick where
  head : FieldHead
  selections? : Option (List Selection)
  owner : TypeDescriptor
deriving BEq, Repr, Inhabited

/-- The selected fields by response key. -/
abbrev Picks := Table Pick

/-- The fields of fragments that are collected already. -/
abbrev FragmentCache := Table Picks

/-- A computation that fills the cache, also when it fails. -/
abbrev Collecting := ExceptT Error (StateM FragmentCache)

namespace Context

/-- The names of fragments that are not on a trail. -/
def untrodden (context : Context) (trail : List String) : List String :=
  context.fragments.keys.filter fun name => name ∉ trail

private theorem length_filter_lt {names : List String} {keep keepFewer : String → Bool}
    (fewer : ∀ name, keepFewer name = true → keep name = true) {name : String}
    (member : name ∈ names) (kept : keep name = true) (dropped : keepFewer name = false) :
    (names.filter keepFewer).length < (names.filter keep).length := by
  induction names with
  | nil => cases member
  | cons head tail ih =>
    have tailLe : (tail.filter keepFewer).length ≤ (tail.filter keep).length := by
      rw [← List.countP_eq_length_filter, ← List.countP_eq_length_filter]
      exact List.countP_mono_left fun item _ => fewer item
    by_cases same : name = head
    · subst same
      simp only [List.filter_cons, kept, dropped, if_true, Bool.false_eq_true, if_false,
        List.length_cons]
      omega
    · have tailMember : name ∈ tail := (List.mem_cons.mp member).resolve_left same
      have shorter := ih tailMember
      cases headFewer : keepFewer head with
      | true => simp only [List.filter_cons, headFewer, fewer head headFewer, if_true,
          List.length_cons]; omega
      | false =>
        cases headKeep : keep head with
        | true => simp only [List.filter_cons, headFewer, headKeep, if_true, Bool.false_eq_true,
            if_false, List.length_cons]; omega
        | false => simpa only [List.filter_cons, headFewer, headKeep, Bool.false_eq_true,
            if_false] using shorter

theorem length_untrodden_lt (context : Context) {trail : List String} {name : String}
    (known : (context.fragments.get? name).isSome = true) (fresh : name ∉ trail) :
    (context.untrodden (trail ++ [name])).length < (context.untrodden trail).length := by
  refine length_filter_lt ?_ (?_ : name ∈ context.fragments.keys) (by simpa using fresh) (by simp)
  · intro other off
    simp only [List.mem_append, not_or, decide_eq_true_eq] at off ⊢
    exact off.1
  · exact (Table.contains_iff_mem_keys _ _).mp known

mutual

/-- The fields of a selection set, added to those already selected beside it. `trail` holds the
fragments that are being expanded. -/
def collectInto (context : Context) (source : String) (trail : List String)
    (owner : TypeDescriptor) (selected : Picks) : List Selection → Collecting Picks
  | [] => return selected
  | .field head selections? :: rest =>
    context.collectInto source trail owner
      (selected.insert head.key { head, selections?, owner }) rest
  | .inlineFragment condition? _ selections :: rest => do
    let innerOwner ← match condition? with
      | none => pure owner
      | some condition => liftExcept (context.requireType condition source)
    let inner ← context.collectInto source trail innerOwner ∅ selections
    context.collectInto source trail owner (selected.merge inner) rest
  | .spread name _ :: rest => do
    let inner ← context.collectFragment source trail name
    context.collectInto source trail owner (selected.merge inner) rest
termination_by selections => ((context.untrodden trail).length, sizeOf selections)

/-- The fields of a fragment. A fragment that is being expanded already closes a cycle. -/
def collectFragment (context : Context) (source : String) (trail : List String) (name : String) :
    Collecting Picks := do
  match (← get).get? name with
  | some picks => return picks
  | none =>
    if _onTrail : name ∈ trail then throw (.fragmentCycle trail name)
    else match _found : context.fragments.get? name with
      | none => throw (.unresolved source (.fragment name))
      | some fragment =>
        let owner ← liftExcept (context.requireType fragment.typeCondition source)
        let picks ← context.collectInto source (trail ++ [name]) owner ∅ fragment.selections
        modify fun cache => cache.insert name picks
        return picks
termination_by ((context.untrodden trail).length, 0)
decreasing_by
  exact Prod.Lex.left _ _ (context.length_untrodden_lt (by simp [_found]) _onTrail)

end

def collect (context : Context) (source : String) (owner : TypeDescriptor)
    (selections : List Selection) : Collecting Picks :=
  context.collectInto source [] owner ∅ selections

/-- The fields of a fragment that nothing else is expanding. -/
def expand (context : Context) (source name : String) : Collecting Picks :=
  context.collectFragment source [] name

end Context

end ChainedSdk
