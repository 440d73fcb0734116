import ChainedSdk.Proofs.Expansion
import ChainedSdk.Proofs.Memory
/-!
# Sessions

An extractor may be called many times, to expand a fragment or to extract the models of some
documents. Every call ends, leaves no fragment on the stack and only whole fragments in the cache,
and gives the answer that a new extractor gives.
-/

namespace ChainedSdk

inductive Call where
  | expand (source name : String)
  | extract (documents : List DocumentFile)

inductive Answer where
  | fields (outcome : Except Error Picks)
  | models (outcome : Except Error (List Model))

def Call.run (context : Context) (cache : FragmentCache) : Call → Answer × FragmentCache
  | .expand source name =>
    let (outcome, filled) := (context.expand source name).run.run cache
    (.fields outcome, filled)
  | .extract documents =>
    let (reported, filled) := Model.extract context documents cache
    (.models reported.outcome, filled)

namespace Context

open Collecting

/-- A computation that touches the memory only where it collects whole selection sets, with the
memory before and after. -/
inductive Performs (context : Context) :
    {α : Type} → Collecting α → Memory → Except Error α → Memory → Prop
  | done {α : Type} (outcome : Except Error α) (memory : Memory) :
      Performs context (liftExcept outcome) memory outcome memory
  | collect {source : String} {owner : TypeDescriptor} {selections : List Selection}
      {memory after : Memory} {outcome : Except Error Picks}
      (collects : context.Collects source (.block owner ∅ selections) memory outcome after) :
      Performs context (context.collect source owner selections) memory outcome after
  | fails {α β : Type} {first : Collecting α} {next : α → Collecting β} {memory after : Memory}
      {error : Error} (failed : Performs context first memory (.error error) after) :
      Performs context (first >>= next) memory (.error error) after
  | follows {α β : Type} {first : Collecting α} {next : α → Collecting β}
      {memory half after : Memory} {value : α} {outcome : Except Error β}
      (performed : Performs context first memory (.ok value) half)
      (further : Performs context (next value) half outcome after) :
      Performs context (first >>= next) memory outcome after

variable {context : Context} {α β : Type} {computation : Collecting α} {memory after : Memory}
  {outcome : Except Error α}

theorem Performs.run_eq (performs : context.Performs computation memory outcome after)
    (idle : memory.expanding = []) :
    after.expanding = [] ∧ computation.run.run memory.cache = (outcome, after.cache) := by
  induction performs with
  | done outcome memory =>
    refine ⟨idle, ?_⟩
    cases outcome with
    | error error => rfl
    | ok value => rfl
  | collect collects =>
    obtain ⟨restored, ran⟩ := collects.run_eq
    rw [idle] at restored ran
    exact ⟨restored, ran⟩
  | fails _ ih =>
    obtain ⟨stays, ran⟩ := ih idle
    refine ⟨stays, ?_⟩
    rw [run_bind, ran]
  | follows _ _ ihFirst ihNext =>
    obtain ⟨between, ran⟩ := ihFirst idle
    obtain ⟨stays, ranNext⟩ := ihNext between
    refine ⟨stays, ?_⟩
    rw [run_bind, ran]
    exact ranNext

/-- A computation has a course from every memory. -/
def Completes (context : Context) (computation : Collecting α) : Prop :=
  ∀ memory, ∃ outcome after, context.Performs computation memory outcome after

theorem completes_liftExcept (context : Context) (outcome : Except Error α) :
    context.Completes (liftExcept outcome) :=
  fun memory => ⟨outcome, memory, .done outcome memory⟩

theorem completes_pure (context : Context) (value : α) :
    context.Completes (pure value : Collecting α) :=
  context.completes_liftExcept (.ok value)

theorem completes_throw (context : Context) (error : Error) :
    context.Completes (throw error : Collecting α) :=
  context.completes_liftExcept (.error error)

theorem completes_collect (context : Context) (source : String) (owner : TypeDescriptor)
    (selections : List Selection) :
    context.Completes (context.collect source owner selections) := by
  intro memory
  obtain ⟨outcome, after, collects⟩ :=
    context.exists_collects source (.block owner ∅ selections) memory
  exact ⟨outcome, after, .collect collects⟩

theorem Completes.bind {next : α → Collecting β} (first : context.Completes computation)
    (further : ∀ value, context.Completes (next value)) :
    context.Completes (computation >>= next) := by
  intro memory
  obtain ⟨outcome, half, performed⟩ := first memory
  cases outcome with
  | error error => exact ⟨_, half, .fails performed⟩
  | ok value =>
    obtain ⟨outcome, after, onward⟩ := further value half
    exact ⟨outcome, after, .follows performed onward⟩

private theorem completes_modelFields {addNested : ModelSite → Extracting Unit}
    (nested : ∀ inner made, context.Completes ((addNested inner).run made))
    (site : ModelSite) (picks : List (String × Pick)) (made : Table Model) :
    context.Completes
      ((picks.mapM fun entry => context.modelField addNested site entry.1 entry.2).run made) := by
  induction picks generalizing made with
  | nil => exact context.completes_pure ([], made)
  | cons entry rest ih =>
    obtain ⟨key, pick⟩ := entry
    rw [List.mapM_cons, modelField_eq]
    simp only [StateT.run_bind, bind_assoc, run_liftExcept, pure_bind, StateT.run_pure]
    refine (context.completes_liftExcept _).bind fun resolved => ?_
    obtain ⟨field, nested?⟩ := resolved
    cases nested? with
    | none => exact (ih made).bind fun _ => context.completes_pure _
    | some inner =>
      exact (nested inner made).bind fun state => (ih state.2).bind fun _ =>
        context.completes_pure _

private theorem completes_addModel (context : Context) (depth : Nat) (site : ModelSite)
    (made : Table Model) : context.Completes ((context.addModel depth site).run made) := by
  induction depth generalizing site made with
  | zero => exact context.completes_throw _
  | succ depth ih =>
    rw [addModel]
    simp only [StateT.run_bind, StateT.run_get, pure_bind]
    cases made.get? site.name with
    | some existing => exact context.completes_throw _
    | none =>
      simp only [StateT.run_bind, StateT.run_monadLift, bind_assoc, pure_bind]
      refine (context.completes_collect site.source site.owner site.selections).bind fun picks => ?_
      exact (completes_modelFields ih site picks.toList made).bind fun _ =>
        context.completes_pure _

private theorem completes_addDefinition (context : Context) (depth : Nat) (definition : Definition)
    (made : Table Model) :
    context.Completes ((context.addDefinition depth definition).run made) := by
  have added (found : Except Error ModelSite) :
      context.Completes ((liftExcept found >>= context.addModel depth).run made) := by
    rw [StateT.run_bind, run_liftExcept, bind_assoc]
    exact (context.completes_liftExcept found).bind fun site =>
      context.completes_addModel depth site made
  cases definition with
  | operation operation => exact added (context.operationSite operation)
  | fragment fragment => exact added (context.fragmentSite fragment)
  | type _ => exact context.completes_pure _
  | typeExtension _ => exact context.completes_pure _
  | schema _ => exact context.completes_pure _
  | schemaExtension _ => exact context.completes_pure _
  | directive _ => exact context.completes_pure _
  | directiveExtension _ => exact context.completes_pure _

theorem completes_extractModels (context : Context) (documents : List DocumentFile) :
    context.Completes (context.extractModels documents) := by
  have every (definitions : List Definition) (made : Table Model) : context.Completes
      ((definitions.forM (context.addDefinition (context.depthBound documents))).run made) := by
    induction definitions generalizing made with
    | nil => exact context.completes_pure ((), made)
    | cons definition rest ih =>
      exact (context.completes_addDefinition _ definition made).bind fun state => ih state.2
  exact (every (definitionsOf documents) ∅).bind fun _ => context.completes_pure _

/-- What a call does to the memory, and its answer. -/
inductive Answers (context : Context) : Call → Memory → Answer → Memory → Prop
  | expand {source name : String} {memory after : Memory} {outcome : Except Error Picks}
      (collects : context.Collects source (.fragment name) memory outcome after) :
      Answers context (.expand source name) memory (.fields outcome) after
  | extract {documents : List DocumentFile} {memory after : Memory}
      {outcome : Except Error (List Model)}
      (performs : context.Performs (context.extractModels documents) memory outcome after) :
      Answers context (.extract documents) memory (.models outcome) after

/-- Calls one after the other on one extractor, with the answer to each and the memory after it. -/
inductive Session (context : Context) : Memory → List Call → List (Answer × Memory) → Prop
  | nil {memory : Memory} : Session context memory [] []
  | cons {memory after : Memory} {call : Call} {answer : Answer} {rest : List Call}
      {steps : List (Answer × Memory)} (answers : context.Answers call memory answer after)
      (further : Session context after rest steps) :
      Session context memory (call :: rest) ((answer, after) :: steps)

private theorem run_extract (context : Context) (documents : List DocumentFile)
    (cache : FragmentCache) : (Call.extract documents).run context cache =
      (.models ((context.extractModels documents).run.run cache).1,
        ((context.extractModels documents).run.run cache).2) := by
  obtain ⟨⟨outcome, filled⟩, ran⟩ : ∃ result,
      (context.extractModels documents).run.run cache = result := ⟨_, rfl⟩
  simp only [Call.run, Model.extract, ran]
  cases outcome with
  | error error => rfl
  | ok models => rfl

variable {call : Call} {answer : Answer} {cache : FragmentCache}

theorem Answers.run_eq (answers : context.Answers call memory answer after)
    (idle : memory.expanding = []) :
    after.expanding = [] ∧ call.run context memory.cache = (answer, after.cache) := by
  cases answers with
  | expand collects =>
    obtain ⟨restored, ran⟩ := collects.run_eq
    rw [idle] at restored ran
    refine ⟨restored, ?_⟩
    simp only [Piece.collect] at ran
    simp only [Call.run, Context.expand, ran]
  | extract performs =>
    obtain ⟨stays, ran⟩ := performs.run_eq idle
    exact ⟨stays, by rw [run_extract, ran]⟩

theorem exists_answers (context : Context) (call : Call) (memory : Memory) :
    ∃ answer after, context.Answers call memory answer after := by
  cases call with
  | expand source name =>
    obtain ⟨outcome, after, collects⟩ := context.exists_collects source (.fragment name) memory
    exact ⟨_, after, .expand collects⟩
  | extract documents =>
    obtain ⟨outcome, after, performs⟩ := context.completes_extractModels documents memory
    exact ⟨_, after, .extract performs⟩

/-- The answer to a call does not show what is remembered. -/
theorem run_eq_alone (complete : cache.Complete context) (call : Call) :
    ∃ filled, call.run context cache = ((call.run context ∅).1, filled) ∧
      filled.Complete context := by
  have empty := FragmentCache.complete_empty context
  cases call with
  | expand source name =>
    have gives := context.gives_collectFragment source [] name (context.leads_nil _)
    obtain ⟨filled, stays, ran⟩ := gives cache complete
    obtain ⟨_, _, ranAlone⟩ := gives ∅ empty
    refine ⟨filled, ?_, stays⟩
    simp only [Call.run, Context.expand, ran, ranAlone]
  | extract documents =>
    have gives := context.gives_extractModels documents
    obtain ⟨filled, stays, ran⟩ := gives cache complete
    obtain ⟨_, _, ranAlone⟩ := gives ∅ empty
    refine ⟨filled, ?_, stays⟩
    rw [run_extract, run_extract, ran, ranAlone]

theorem Collects.ok_iff {source name : String} {picks? : Except Error Picks}
    (collects : context.Collects source (.fragment name) memory picks? after)
    (idle : memory.expanding = []) (complete : memory.cache.Complete context) :
    (∃ picks, picks? = .ok picks) ↔ context.Expandable name := by
  obtain ⟨filled, _, given⟩ :=
    context.gives_collectFragment source [] name (context.leads_nil _) memory.cache complete
  obtain ⟨_, ran⟩ := collects.run_eq
  rw [idle] at ran
  obtain ⟨rfl, _⟩ := Prod.mk.inj (ran.symm.trans given)
  rw [← inlinedFragment_eq_ok_iff]
  constructor
  · rintro ⟨picks, found⟩
    obtain ⟨entries, expanded, _⟩ := Outcome.map_eq_ok_iff.mp found
    exact ⟨entries, expanded⟩
  · rintro ⟨entries, expanded⟩
    exact ⟨Table.ofList entries, Outcome.map_eq_ok_iff.mpr ⟨entries, expanded, rfl⟩⟩

theorem exists_session (context : Context) (calls : List Call) (memory : Memory) :
    ∃ steps, context.Session memory calls steps := by
  induction calls generalizing memory with
  | nil => exact ⟨[], .nil⟩
  | cons call rest ih =>
    obtain ⟨answer, after, answers⟩ := context.exists_answers call memory
    obtain ⟨steps, further⟩ := ih after
    exact ⟨(answer, after) :: steps, .cons answers further⟩

theorem Session.spec {calls : List Call} {steps : List (Answer × Memory)}
    (session : context.Session memory calls steps) (idle : memory.expanding = [])
    (complete : memory.cache.Complete context) :
    steps.map Prod.fst = calls.map (fun call => (call.run context ∅).1) ∧
      ∀ step ∈ steps, step.2.expanding = [] ∧ step.2.cache.Complete context := by
  induction session with
  | nil =>
    refine ⟨rfl, ?_⟩
    intro _ impossible
    cases impossible
  | cons answers _ ih =>
    obtain ⟨stays, ran⟩ := answers.run_eq idle
    obtain ⟨filled, ranAlone, whole⟩ := run_eq_alone complete _
    rw [ran] at ranAlone
    obtain ⟨sameAnswer, rfl⟩ := Prod.mk.inj ranAlone
    obtain ⟨later, every⟩ := ih stays whole
    refine ⟨?_, ?_⟩
    · rw [List.map_cons, List.map_cons, later, sameAnswer]
    · intro step member
      rcases List.mem_cons.mp member with rfl | isLater
      · exact ⟨stays, whole⟩
      · exact every step isLater

/-- The memory of an extractor is invisible: any calls one after the other all come to an end, each
with the answer that a new extractor gives to it, and after each no fragment is on the stack and
only whole fragments are in the cache. To expand a fragment comes to an end on every idle extractor,
and succeeds exactly where the fragment reaches, beside its fields, only defined fragments over
known types and no cycle. -/
theorem session_answers_alone (context : Context) (calls : List Call) :
    (∃ steps, context.Session .fresh calls steps) ∧
      (∀ steps, context.Session .fresh calls steps →
        steps.map Prod.fst = calls.map (fun call => (call.run context ∅).1) ∧
          ∀ step ∈ steps, step.2.expanding = [] ∧ step.2.cache.Complete context) ∧
      ∀ source name memory, memory.expanding = [] →
        (∃ outcome after, context.Collects source (.fragment name) memory outcome after) ∧
          (memory.cache.Complete context → ∀ outcome after,
            context.Collects source (.fragment name) memory outcome after →
              ((∃ picks, outcome = .ok picks) ↔ context.Expandable name)) := by
  refine ⟨context.exists_session calls .fresh, ?_, ?_⟩
  · intro steps session
    exact session.spec rfl (FragmentCache.complete_empty context)
  · intro source name memory idle
    refine ⟨context.exists_collects source (.fragment name) memory, ?_⟩
    intro complete outcome after collects
    exact collects.ok_iff idle complete

end Context

end ChainedSdk
