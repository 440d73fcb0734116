import ChainedSdk.Proofs.Extraction
/-!
# The memory of an extractor

An extractor keeps a stack of the fragments that it is expanding: a fragment is put on it before it
is expanded and taken off afterwards, also after a failure. `Collects` says step by step what this
does to the memory. Every collection ends, and at its end the stack is as it was before; what is
collected is what `collectInto` and `collectFragment` give, whose trail stands for the stack.
-/

namespace ChainedSdk

/-- What an extractor keeps: the fragments collected already, and those that it is expanding,
innermost last. -/
@[ext]
structure Memory where
  cache : FragmentCache
  expanding : List String

namespace Memory

def fresh : Memory := ⟨∅, []⟩

def push (memory : Memory) (name : String) : Memory :=
  { memory with expanding := memory.expanding ++ [name] }

def pop (memory : Memory) : Memory := { memory with expanding := memory.expanding.dropLast }

def remember (memory : Memory) (name : String) (picks : Picks) : Memory :=
  { memory with cache := memory.cache.insert name picks }

@[simp] theorem push_expanding (memory : Memory) (name : String) :
    (memory.push name).expanding = memory.expanding ++ [name] := rfl

@[simp] theorem push_cache (memory : Memory) (name : String) :
    (memory.push name).cache = memory.cache := rfl

@[simp] theorem pop_cache (memory : Memory) : memory.pop.cache = memory.cache := rfl

@[simp] theorem remember_cache (memory : Memory) (name : String) (picks : Picks) :
    (memory.remember name picks).cache = memory.cache.insert name picks := rfl

theorem pop_expanding {memory after : Memory} {name : String}
    (same : after.expanding = (memory.push name).expanding) :
    after.pop.expanding = memory.expanding := by
  simp [pop, same]

end Memory

/-- What is collected at once: some selections beside those that are selected already, or a
fragment. -/
inductive Piece where
  | block (owner : TypeDescriptor) (selected : Picks) (selections : List Selection)
  | fragment (name : String)

def Piece.collect (context : Context) (source : String) (trail : List String) :
    Piece → Collecting Picks
  | .block owner selected selections =>
    context.collectInto source trail owner selected selections
  | .fragment name => context.collectFragment source trail name

namespace Context

open Collecting

/-- A piece is collected, with the memory before and after. -/
inductive Collects (context : Context) (source : String) :
    Piece → Memory → Except Error Picks → Memory → Prop
  | nil {owner : TypeDescriptor} {selected : Picks} {memory : Memory} :
      Collects context source (.block owner selected []) memory (.ok selected) memory
  | field {owner : TypeDescriptor} {selected : Picks} {head : FieldHead}
      {selections? : Option (List Selection)} {rest : List Selection} {memory after : Memory}
      {outcome : Except Error Picks}
      (further : Collects context source
        (.block owner (selected.insert head.key { head, selections?, owner }) rest)
        memory outcome after) :
      Collects context source (.block owner selected (.field head selections? :: rest))
        memory outcome after
  | unknownCondition {owner : TypeDescriptor} {selected : Picks} {condition : String}
      {directives : List Directive} {selections rest : List Selection} {memory : Memory}
      (unknown : context.type? condition = none) :
      Collects context source
        (.block owner selected (.inlineFragment (some condition) directives selections :: rest))
        memory (.error (.unresolved source (.type condition))) memory
  | inlineFails {owner innerOwner : TypeDescriptor} {selected : Picks}
      {condition? : Option String} {directives : List Directive}
      {selections rest : List Selection} {memory after : Memory} {error : Error}
      (known : context.innerOwner? condition? owner = some innerOwner)
      (inside : Collects context source (.block innerOwner ∅ selections)
        memory (.error error) after) :
      Collects context source
        (.block owner selected (.inlineFragment condition? directives selections :: rest))
        memory (.error error) after
  | inlineFragment {owner innerOwner : TypeDescriptor} {selected inner : Picks}
      {condition? : Option String} {directives : List Directive}
      {selections rest : List Selection} {memory half after : Memory}
      {outcome : Except Error Picks}
      (known : context.innerOwner? condition? owner = some innerOwner)
      (inside : Collects context source (.block innerOwner ∅ selections)
        memory (.ok inner) half)
      (further : Collects context source (.block owner (selected.merge inner) rest)
        half outcome after) :
      Collects context source
        (.block owner selected (.inlineFragment condition? directives selections :: rest))
        memory outcome after
  | spreadFails {owner : TypeDescriptor} {selected : Picks} {name : String}
      {directives : List Directive} {rest : List Selection} {memory after : Memory} {error : Error}
      (inside : Collects context source (.fragment name) memory (.error error) after) :
      Collects context source (.block owner selected (.spread name directives :: rest))
        memory (.error error) after
  | spread {owner : TypeDescriptor} {selected inner : Picks} {name : String}
      {directives : List Directive} {rest : List Selection} {memory half after : Memory}
      {outcome : Except Error Picks}
      (inside : Collects context source (.fragment name) memory (.ok inner) half)
      (further : Collects context source (.block owner (selected.merge inner) rest)
        half outcome after) :
      Collects context source (.block owner selected (.spread name directives :: rest))
        memory outcome after
  | remembered {name : String} {memory : Memory} {picks : Picks}
      (present : memory.cache.get? name = some picks) :
      Collects context source (.fragment name) memory (.ok picks) memory
  | cycle {name : String} {memory : Memory} (absent : memory.cache.get? name = none)
      (onStack : name ∈ memory.expanding) :
      Collects context source (.fragment name) memory
        (.error (.fragmentCycle memory.expanding name)) memory
  | undefined {name : String} {memory : Memory} (absent : memory.cache.get? name = none)
      (fresh : name ∉ memory.expanding) (missing : context.fragments.get? name = none) :
      Collects context source (.fragment name) memory
        (.error (.unresolved source (.fragment name))) memory
  | unknownType {name : String} {memory : Memory} {fragment : FragmentDefinition}
      (absent : memory.cache.get? name = none) (fresh : name ∉ memory.expanding)
      (found : context.fragments.get? name = some fragment)
      (unknown : context.type? fragment.typeCondition = none) :
      Collects context source (.fragment name) memory
        (.error (.unresolved source (.type fragment.typeCondition))) memory
  | failed {name : String} {memory after : Memory} {fragment : FragmentDefinition}
      {owner : TypeDescriptor} {error : Error}
      (absent : memory.cache.get? name = none) (fresh : name ∉ memory.expanding)
      (found : context.fragments.get? name = some fragment)
      (known : context.type? fragment.typeCondition = some owner)
      (inside : Collects context source (.block owner ∅ fragment.selections)
        (memory.push name) (.error error) after) :
      Collects context source (.fragment name) memory (.error error) after.pop
  | expanded {name : String} {memory after : Memory} {fragment : FragmentDefinition}
      {owner : TypeDescriptor} {picks : Picks}
      (absent : memory.cache.get? name = none) (fresh : name ∉ memory.expanding)
      (found : context.fragments.get? name = some fragment)
      (known : context.type? fragment.typeCondition = some owner)
      (inside : Collects context source (.block owner ∅ fragment.selections)
        (memory.push name) (.ok picks) after) :
      Collects context source (.fragment name) memory (.ok picks) (after.pop.remember name picks)

variable {context : Context} {source name : String} {trail : List String} {piece : Piece}
  {memory after : Memory} {outcome : Except Error Picks} {cache : FragmentCache}

theorem run_collectFragment_of_some {picks : Picks} (present : cache.get? name = some picks) :
    (context.collectFragment source trail name).run.run cache = (.ok picks, cache) := by
  rw [collectFragment]
  have unfolded (next : FragmentCache → Collecting Picks) :
      (get >>= next).run.run cache = (next cache).run.run cache := rfl
  rw [unfolded, present]
  rfl

theorem run_collectFragment_of_none (absent : cache.get? name = none) :
    (context.collectFragment source trail name).run.run cache =
      if name ∈ trail then (.error (.fragmentCycle trail name), cache)
      else match context.fragments.get? name with
        | none => (.error (.unresolved source (.fragment name)), cache)
        | some fragment => match context.type? fragment.typeCondition with
          | none => (.error (.unresolved source (.type fragment.typeCondition)), cache)
          | some owner =>
            match (context.collectInto source (trail ++ [name]) owner ∅
                fragment.selections).run.run cache with
            | (.ok picks, filled) => (.ok picks, filled.insert name picks)
            | (.error error, filled) => (.error error, filled) := by
  rw [collectFragment]
  have unfolded (next : FragmentCache → Collecting Picks) :
      (get >>= next).run.run cache = (next cache).run.run cache := rfl
  rw [unfolded, absent]
  dsimp only
  split
  · rfl
  · split
    · next missing =>
      rw [missing]
      rfl
    · next fragment found =>
      rw [found]
      dsimp only
      unfold requireType
      cases context.type? fragment.typeCondition with
      | none => rfl
      | some owner =>
        rw [run_bind]
        dsimp only
        rw [show (liftExcept (.ok owner) : Collecting TypeDescriptor).run.run cache =
          (.ok owner, cache) from rfl]
        dsimp only
        rw [run_bind]
        split
        · next picks filled ran =>
          rw [ran]
          rfl
        · next error filled ran =>
          rw [ran]

private theorem collectInto_unknown {owner : TypeDescriptor} {selected : Picks}
    {condition : String} {directives : List Directive} {selections rest : List Selection}
    (unknown : context.type? condition = none) :
    (context.collectInto source trail owner selected
        (.inlineFragment (some condition) directives selections :: rest)).run.run cache =
      (.error (.unresolved source (.type condition)), cache) := by
  rw [collectInto]
  simp only [requireType, unknown]
  rfl

private theorem collectInto_known {owner innerOwner : TypeDescriptor} {selected : Picks}
    {condition? : Option String} {directives : List Directive} {selections rest : List Selection}
    (known : context.innerOwner? condition? owner = some innerOwner) :
    context.collectInto source trail owner selected
        (.inlineFragment condition? directives selections :: rest) =
      (context.collectInto source trail innerOwner ∅ selections >>= fun inner =>
        context.collectInto source trail owner (selected.merge inner) rest) := by
  cases condition? with
  | none =>
    cases known
    rw [collectInto]
    rfl
  | some condition =>
    have isOwner : context.requireType condition source = .ok innerOwner :=
      requireType_eq_ok_iff.mpr known
    rw [collectInto, isOwner]
    rfl

/-- Collecting leaves the stack as it was, and its outcome is the one with the stack as trail. -/
theorem Collects.run_eq (collects : context.Collects source piece memory outcome after) :
    after.expanding = memory.expanding ∧
      (piece.collect context source memory.expanding).run.run memory.cache =
        (outcome, after.cache) := by
  induction collects with
  | nil =>
    refine ⟨rfl, ?_⟩
    simp only [Piece.collect, collectInto]
    rfl
  | field _ ih =>
    refine ⟨ih.1, ?_⟩
    simp only [Piece.collect, collectInto] at ih ⊢
    exact ih.2
  | unknownCondition unknown => exact ⟨rfl, collectInto_unknown unknown⟩
  | inlineFails known _ ih =>
    obtain ⟨restored, ran⟩ := ih
    refine ⟨restored, ?_⟩
    simp only [Piece.collect] at ran ⊢
    rw [collectInto_known known, run_bind, ran]
  | inlineFragment known _ _ ihInside ihLater =>
    obtain ⟨restored, ran⟩ := ihInside
    obtain ⟨restoredLater, ranLater⟩ := ihLater
    refine ⟨restoredLater.trans restored, ?_⟩
    simp only [Piece.collect, restored] at ran ranLater ⊢
    rw [collectInto_known known, run_bind, ran]
    exact ranLater
  | spreadFails _ ih =>
    obtain ⟨restored, ran⟩ := ih
    refine ⟨restored, ?_⟩
    simp only [Piece.collect, collectInto] at ran ⊢
    rw [run_bind, ran]
  | spread _ _ ihInside ihLater =>
    obtain ⟨restored, ran⟩ := ihInside
    obtain ⟨restoredLater, ranLater⟩ := ihLater
    refine ⟨restoredLater.trans restored, ?_⟩
    simp only [Piece.collect, collectInto, restored] at ran ranLater ⊢
    rw [run_bind, ran]
    exact ranLater
  | remembered present => exact ⟨rfl, run_collectFragment_of_some present⟩
  | cycle absent onStack =>
    refine ⟨rfl, ?_⟩
    simp only [Piece.collect, run_collectFragment_of_none absent, if_pos onStack]
  | undefined absent fresh missing =>
    refine ⟨rfl, ?_⟩
    simp only [Piece.collect, run_collectFragment_of_none absent, if_neg fresh, missing]
  | unknownType absent fresh found unknown =>
    refine ⟨rfl, ?_⟩
    simp only [Piece.collect, run_collectFragment_of_none absent, if_neg fresh, found, unknown]
  | failed absent fresh found known _ ih =>
    obtain ⟨restored, ran⟩ := ih
    refine ⟨Memory.pop_expanding restored, ?_⟩
    simp only [Piece.collect, Memory.push_expanding, Memory.push_cache] at ran
    simp only [Piece.collect, run_collectFragment_of_none absent, if_neg fresh, found, known, ran,
      Memory.pop_cache]
  | expanded absent fresh found known _ ih =>
    obtain ⟨restored, ran⟩ := ih
    refine ⟨Memory.pop_expanding restored, ?_⟩
    simp only [Piece.collect, Memory.push_expanding, Memory.push_cache] at ran
    simp only [Piece.collect, run_collectFragment_of_none absent, if_neg fresh, found, known, ran,
      Memory.remember_cache, Memory.pop_cache]

/-- Every collection ends: on its way into fragments it meets none twice. -/
theorem exists_collects (context : Context) (source : String) (piece : Piece) (memory : Memory) :
    ∃ outcome after, context.Collects source piece memory outcome after := by
  -- The induction is that of the collecting function, with the stack in the place of its trail.
  have every := collectInto.mutual_induct context source
    (fun trail owner selected selections => ∀ memory : Memory, memory.expanding = trail →
      ∃ outcome after,
        context.Collects source (.block owner selected selections) memory outcome after)
    (fun trail name => ∀ memory : Memory, memory.expanding = trail →
      ∃ outcome after, context.Collects source (.fragment name) memory outcome after)
    ?nil ?field ?bare ?conditional ?spread ?fragment
  case nil =>
    intro trail owner selected memory _
    exact ⟨_, _, .nil⟩
  case field =>
    intro trail owner selected head selections? rest ih memory onStack
    obtain ⟨outcome, after, further⟩ := ih memory onStack
    exact ⟨outcome, after, .field further⟩
  case bare =>
    intro trail owner selected directives selections rest ihInside ihLater memory onStack
    obtain ⟨outcome, half, inside⟩ := ihInside owner memory onStack
    cases outcome with
    | error error => exact ⟨_, half, .inlineFails rfl inside⟩
    | ok inner =>
      obtain ⟨outcome, after, further⟩ := ihLater inner half (inside.run_eq.1.trans onStack)
      exact ⟨outcome, after, .inlineFragment rfl inside further⟩
  case conditional =>
    intro trail owner selected directives selections rest condition ihInside ihLater memory onStack
    cases known : context.type? condition with
    | none => exact ⟨_, memory, .unknownCondition known⟩
    | some innerOwner =>
      obtain ⟨outcome, half, inside⟩ := ihInside innerOwner memory onStack
      cases outcome with
      | error error => exact ⟨_, half, .inlineFails known inside⟩
      | ok inner =>
        obtain ⟨outcome, after, further⟩ := ihLater inner half (inside.run_eq.1.trans onStack)
        exact ⟨outcome, after, .inlineFragment known inside further⟩
  case spread =>
    intro trail owner selected name directives rest ihFragment ihLater memory onStack
    obtain ⟨outcome, half, inside⟩ := ihFragment memory onStack
    cases outcome with
    | error error => exact ⟨_, half, .spreadFails inside⟩
    | ok inner =>
      obtain ⟨outcome, after, further⟩ := ihLater inner half (inside.run_eq.1.trans onStack)
      exact ⟨outcome, after, .spread inside further⟩
  case fragment =>
    intro trail name ih memory onStack
    cases present : memory.cache.get? name with
    | some picks => exact ⟨_, memory, .remembered present⟩
    | none =>
      by_cases isOpen : name ∈ memory.expanding
      · exact ⟨_, memory, .cycle present isOpen⟩
      · cases found : context.fragments.get? name with
        | none => exact ⟨_, memory, .undefined present isOpen found⟩
        | some fragment =>
          cases known : context.type? fragment.typeCondition with
          | none => exact ⟨_, memory, .unknownType present isOpen found known⟩
          | some owner =>
            obtain ⟨outcome, after, inside⟩ := ih (onStack ▸ isOpen) fragment found owner
              (memory.push name) (by rw [Memory.push_expanding, onStack])
            cases outcome with
            | error error => exact ⟨_, _, .failed present isOpen found known inside⟩
            | ok picks => exact ⟨_, _, .expanded present isOpen found known inside⟩
  cases piece with
  | block owner selected selections => exact every.1 _ owner selected selections memory rfl
  | fragment name => exact every.2 _ name memory rfl

/-- The memory after a collection: the stack is that of before, and outcome and cache are those of
the collection with the stack as trail. -/
theorem collects_iff : context.Collects source piece memory outcome after ↔
    after.expanding = memory.expanding ∧
      (piece.collect context source memory.expanding).run.run memory.cache =
        (outcome, after.cache) := by
  constructor
  · exact Collects.run_eq
  · rintro ⟨restored, ran⟩
    obtain ⟨found, last, collects⟩ := context.exists_collects source piece memory
    obtain ⟨lastRestored, lastRan⟩ := collects.run_eq
    obtain ⟨rfl, sameCache⟩ := Prod.mk.inj (ran.symm.trans lastRan)
    have same : after = last := Memory.ext sameCache (restored.trans lastRestored.symm)
    exact same ▸ collects

end Context

end ChainedSdk
