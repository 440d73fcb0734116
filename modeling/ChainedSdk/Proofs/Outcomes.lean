import ChainedSdk.Report
import Mathlib.Data.List.Forall2
/-!
# Outcomes

How a computation that may fail is taken apart: what it means that a sequence of steps, or the same
step over a list, has succeeded, where a failure has come from, and when two computations go alike.
-/

namespace ChainedSdk.Outcome

variable {ε α β : Type}

theorem bind_eq_ok_iff {first : Except ε α} {next : α → Except ε β} {result : β} :
    (first >>= next) = .ok result ↔ ∃ value, first = .ok value ∧ next value = .ok result := by
  cases first with
  | error error => simp [bind, Except.bind]
  | ok value => simp [bind, Except.bind]

theorem bind_eq_error_iff {first : Except ε α} {next : α → Except ε β} {error : ε} :
    (first >>= next) = .error error ↔
      first = .error error ∨ ∃ value, first = .ok value ∧ next value = .error error := by
  cases first with
  | error failure => simp [bind, Except.bind]
  | ok value => simp [bind, Except.bind]

theorem map_eq_ok_iff {first : Except ε α} {change : α → β} {result : β} :
    first.map change = .ok result ↔ ∃ value, first = .ok value ∧ change value = result := by
  cases first with
  | error error => simp [Except.map]
  | ok value => simp [Except.map]

theorem map_eq_error_iff {first : Except ε α} {change : α → β} {error : ε} :
    first.map change = .error error ↔ first = .error error := by
  cases first with
  | error failure => simp [Except.map]
  | ok value => simp [Except.map]

theorem mapM_eq_ok_iff {step : α → Except ε β} {items : List α} {results : List β} :
    items.mapM step = .ok results ↔
      List.Forall₂ (fun item result => step item = .ok result) items results := by
  induction items generalizing results with
  | nil => cases results <;> simp [pure, Except.pure]
  | cons item rest ih =>
    rw [List.mapM_cons, bind_eq_ok_iff]
    constructor
    · rintro ⟨first, atHead, later⟩
      obtain ⟨others, atTail, same⟩ := bind_eq_ok_iff.mp later
      cases same
      exact .cons atHead (ih.mp atTail)
    · intro every
      cases every with
      | cons atHead atTail => exact ⟨_, atHead, bind_eq_ok_iff.mpr ⟨_, ih.mpr atTail, rfl⟩⟩

theorem exists_mapM_eq_ok {step : α → Except ε β} {items : List α}
    (each : ∀ item ∈ items, ∃ result, step item = .ok result) :
    ∃ results, items.mapM step = .ok results := by
  induction items with
  | nil => exact ⟨[], rfl⟩
  | cons item rest ih =>
    obtain ⟨first, atHead⟩ := each item List.mem_cons_self
    obtain ⟨others, atTail⟩ := ih fun other member => each other (List.mem_cons_of_mem _ member)
    refine ⟨first :: others, mapM_eq_ok_iff.mpr (.cons atHead (mapM_eq_ok_iff.mp atTail))⟩

theorem mapM_congr {step other : α → Except ε β} {items : List α}
    (same : ∀ item ∈ items, step item = other item) : items.mapM step = items.mapM other := by
  induction items with
  | nil => rfl
  | cons item rest ih =>
    rw [List.mapM_cons, List.mapM_cons, same item List.mem_cons_self,
      ih fun later member => same later (List.mem_cons_of_mem _ member)]

theorem exists_of_forall₂ {relation : α → β → Prop} {items : List α} {results : List β}
    (every : List.Forall₂ relation items results) {result : β} (member : result ∈ results) :
    ∃ item ∈ items, relation item result := by
  induction every with
  | nil => cases member
  | @cons item first rest others related _ ih =>
    rcases List.mem_cons.mp member with same | later
    · exact ⟨item, List.mem_cons_self, same ▸ related⟩
    · obtain ⟨other, isItem, found⟩ := ih later
      exact ⟨other, List.mem_cons_of_mem _ isItem, found⟩

theorem exists_of_forall₂_left {relation : α → β → Prop} {items : List α} {results : List β}
    (every : List.Forall₂ relation items results) {item : α} (member : item ∈ items) :
    ∃ result ∈ results, relation item result := by
  induction every with
  | nil => cases member
  | @cons first result rest others related _ ih =>
    rcases List.mem_cons.mp member with same | later
    · exact ⟨result, List.mem_cons_self, same ▸ related⟩
    · obtain ⟨other, isResult, found⟩ := ih later
      exact ⟨other, List.mem_cons_of_mem _ isResult, found⟩

theorem map_eq_of_forall₂ {γ : Type} {relation : α → β → Prop} {items : List α} {results : List β}
    {key : α → γ} {name : β → γ} (every : List.Forall₂ relation items results)
    (named : ∀ item result, relation item result → key item = name result) :
    items.map key = results.map name := by
  induction every with
  | nil => rfl
  | cons related _ ih => rw [List.map_cons, List.map_cons, named _ _ related, ih]

theorem forall₂_trans {γ : Type} {first : α → β → Prop} {second : β → γ → Prop} {items : List α}
    {between : List β} {results : List γ} (toBetween : List.Forall₂ first items between)
    (toResults : List.Forall₂ second between results) :
    List.Forall₂ (fun item result => ∃ middle, first item middle ∧ second middle result)
      items results := by
  induction toBetween generalizing results with
  | nil =>
    cases toResults
    exact .nil
  | cons related _ ih =>
    cases toResults with
    | cons further later => exact .cons ⟨_, related, further⟩ (ih later)

theorem getElem?_of_forall₂ {relation : α → β → Prop} {items : List α} {results : List β}
    (every : List.Forall₂ relation items results) {index : Nat} {item : α}
    (found : items[index]? = some item) : ∃ result, results[index]? = some result ∧
      relation item result := by
  induction every generalizing index with
  | nil => cases found
  | @cons first result rest others related _ ih =>
    cases index with
    | zero =>
      cases found
      exact ⟨result, rfl, related⟩
    | succ index => exact ih found

theorem forall₂_of_sublist {relation : α → β → Prop} {items fewer : List α} {results : List β}
    (every : List.Forall₂ relation items results) (sublist : fewer.Sublist items) :
    ∃ kept, List.Forall₂ relation fewer kept ∧ kept.Sublist results := by
  induction sublist generalizing results with
  | slnil =>
    cases every
    exact ⟨[], .nil, .refl _⟩
  | cons item _ ih =>
    cases every with
    | cons _ later =>
      obtain ⟨kept, further, within⟩ := ih later
      exact ⟨kept, further, within.cons _⟩
  | cons_cons item _ ih =>
    cases every with
    | cons related later =>
      obtain ⟨kept, further, within⟩ := ih later
      exact ⟨_ :: kept, .cons related further, within.cons_cons _⟩

/-- What holds between the items of one list carries over to the items related to them. -/
theorem pairwise_of_forall₂ {relation : α → β → Prop} {apart : α → α → Prop}
    {other : β → β → Prop} {items : List α} {results : List β}
    (every : List.Forall₂ relation items results) (pairwise : items.Pairwise apart)
    (carries : ∀ first second firstResult secondResult, relation first firstResult →
      relation second secondResult → apart first second → other firstResult secondResult) :
    results.Pairwise other := by
  induction every with
  | nil => exact .nil
  | @cons item first rest others related every ih =>
    obtain ⟨fromFirst, later⟩ := List.pairwise_cons.mp pairwise
    refine .cons (fun result member => ?_) (ih later)
    obtain ⟨second, isSecond, relatedSecond⟩ := exists_of_forall₂ every member
    exact carries _ _ _ _ related relatedSecond (fromFirst second isSecond)

theorem forall₂_zip {relation : α → β → Prop} {items : List α} {results : List β}
    (every : List.Forall₂ relation items results) :
    List.Forall₂ (fun item pair => pair.1 = item ∧ relation item pair.2) items
      (items.zip results) := by
  induction every with
  | nil => exact .nil
  | cons related _ ih => exact .cons ⟨rfl, related⟩ ih

/-- Where the results of items carry the distinct keys of the items, looking a key up among the
results finds the result of its item. -/
theorem find?_of_forall₂ {relation : α → β → Prop} {items : List α} {results : List β}
    (key : α → String) (name : β → String)
    (every : List.Forall₂ relation items results)
    (named : ∀ item result, relation item result → name result = key item)
    (distinct : (items.map key).Nodup) {item : α} (member : item ∈ items) :
    ∃ result, results.find? (fun other => name other = key item) = some result ∧
      relation item result := by
  induction every with
  | nil => cases member
  | @cons head first rest others related _ ih =>
    rw [List.map_cons, List.nodup_cons] at distinct
    rcases List.mem_cons.mp member with rfl | later
    · refine ⟨first, ?_, related⟩
      rw [List.find?_cons, decide_eq_true (named _ _ related)]
    · obtain ⟨result, found, relatedResult⟩ := ih distinct.2 later
      refine ⟨result, ?_, relatedResult⟩
      have differs : name first ≠ key item := by
        intro same
        rw [named _ _ related] at same
        exact distinct.1 (same ▸ List.mem_map_of_mem later)
      rw [List.find?_cons, decide_eq_false differs]
      exact found

theorem exists_of_mapM_eq_error {step : α → Except ε β} {items : List α} {error : ε}
    (failed : items.mapM step = .error error) : ∃ item ∈ items, step item = .error error := by
  induction items with
  | nil => cases failed
  | cons item rest ih =>
    rw [List.mapM_cons] at failed
    rcases bind_eq_error_iff.mp failed with atHead | ⟨first, _, later⟩
    · exact ⟨item, List.mem_cons_self, atHead⟩
    · rcases bind_eq_error_iff.mp later with atTail | ⟨others, _, impossible⟩
      · obtain ⟨other, member, found⟩ := ih atTail
        exact ⟨other, List.mem_cons_of_mem _ member, found⟩
      · cases impossible

theorem forM_eq_ok_iff {step : α → Except ε Unit} {items : List α} :
    items.forM step = .ok () ↔ ∀ item ∈ items, step item = .ok () := by
  induction items with
  | nil => simp [pure, Except.pure]
  | cons item rest ih =>
    have unfolded : (item :: rest).forM step = (step item >>= fun _ => rest.forM step) := rfl
    rw [unfolded, bind_eq_ok_iff, List.forall_mem_cons, ← ih]
    constructor
    · rintro ⟨⟨⟩, atHead, atTail⟩
      exact ⟨atHead, atTail⟩
    · rintro ⟨atHead, atTail⟩
      exact ⟨(), atHead, atTail⟩

theorem foldlM_keeps {step : β → α → Except ε β} {items : List α} {start result : β}
    (holds : β → Prop) (atStart : holds start)
    (keeps : ∀ state item next, item ∈ items → holds state → step state item = .ok next →
      holds next)
    (folded : items.foldlM step start = .ok result) : holds result := by
  induction items generalizing start with
  | nil =>
    cases folded
    exact atStart
  | cons item rest ih =>
    rw [List.foldlM_cons] at folded
    obtain ⟨next, stepped, later⟩ := bind_eq_ok_iff.mp folded
    exact ih (keeps start item next List.mem_cons_self atStart stepped)
      (fun state other after member => keeps state other after (List.mem_cons_of_mem _ member))
      later

/-- A fold that ends well has taken a step at every item. -/
theorem exists_step_of_foldlM {step : β → α → Except ε β} {items : List α} {start result : β}
    (folded : items.foldlM step start = .ok result) {item : α} (member : item ∈ items) :
    ∃ state next, step state item = .ok next := by
  induction items generalizing start with
  | nil => cases member
  | cons first rest ih =>
    rw [List.foldlM_cons] at folded
    obtain ⟨next, stepped, later⟩ := bind_eq_ok_iff.mp folded
    rcases List.mem_cons.mp member with rfl | isLater
    · exact ⟨start, next, stepped⟩
    · exact ih later isLater

/-- A fold fails at one of its items, after it has gone well over those before. -/
theorem exists_of_foldlM_eq_error {step : β → α → Except ε β} {items : List α} {start : β}
    {error : ε} (failed : items.foldlM step start = .error error) :
    ∃ before item after state, items = before ++ item :: after ∧
      before.foldlM step start = .ok state ∧ step state item = .error error := by
  induction items generalizing start with
  | nil => cases failed
  | cons item rest ih =>
    rw [List.foldlM_cons] at failed
    rcases bind_eq_error_iff.mp failed with atHead | ⟨next, stepped, later⟩
    · exact ⟨[], item, rest, start, rfl, rfl, atHead⟩
    · obtain ⟨before, other, after, state, rfl, folded, atOther⟩ := ih later
      refine ⟨item :: before, other, after, state, rfl, ?_, atOther⟩
      rw [List.foldlM_cons]
      exact bind_eq_ok_iff.mpr ⟨next, stepped, folded⟩

/-! ## Two computations -/

/-- Two computations succeed together, with related results, or fail together. -/
inductive Alike (relation : α → β → Prop) : Except ε α → Except ε β → Prop
  | ok {first : α} {second : β} : relation first second → Alike relation (.ok first) (.ok second)
  | error (first second : ε) : Alike relation (.error first) (.error second)

theorem Alike.of_eq {relation : α → α → Prop} (refl : ∀ value, relation value value)
    (outcome : Except ε α) : Alike relation outcome outcome := by
  cases outcome with
  | error error => exact .error error error
  | ok value => exact .ok (refl value)

theorem Alike.bind {γ δ : Type} {relation : α → β → Prop} {later : γ → δ → Prop}
    {first : Except ε α} {second : Except ε β} {next : α → Except ε γ} {other : β → Except ε δ}
    (alike : Alike relation first second)
    (onward : ∀ one two, relation one two → Alike later (next one) (other two)) :
    Alike later (first >>= next) (second >>= other) := by
  cases alike with
  | error one two => exact .error one two
  | ok related => exact onward _ _ related

theorem Alike.imp {relation later : α → β → Prop} {first : Except ε α} {second : Except ε β}
    (alike : Alike relation first second)
    (onward : ∀ one two, first = .ok one → second = .ok two → relation one two → later one two) :
    Alike later first second := by
  cases alike with
  | error one two => exact .error one two
  | ok related => exact .ok (onward _ _ rfl rfl related)

theorem Alike.exists_ok {relation : α → β → Prop} {first : Except ε α} {second : Except ε β}
    (alike : Alike relation first second) {value : α} (succeeds : first = .ok value) :
    ∃ other, second = .ok other ∧ relation value other := by
  cases alike with
  | error one two => cases succeeds
  | ok related =>
    cases succeeds
    exact ⟨_, rfl, related⟩

/-- Computations are alike that begin alike. -/
theorem Alike.after {γ δ : Type} {later : γ → δ → Prop} (first : Except ε α)
    {next : α → Except ε γ} {other : α → Except ε δ}
    (onward : ∀ value, Alike later (next value) (other value)) :
    Alike later (first >>= next) (first >>= other) :=
  (of_eq (fun _ => rfl) first).bind fun one _ same => same ▸ onward one

theorem Alike.of_ok {relation : α → β → Prop} {first : Except ε α} {second : Except ε β}
    (forth : ∀ value, first = .ok value → ∃ other, second = .ok other ∧ relation value other)
    (back : ∀ other, second = .ok other → ∃ value, first = .ok value) :
    Alike relation first second := by
  cases first with
  | ok value =>
    obtain ⟨other, rfl, related⟩ := forth value rfl
    exact .ok related
  | error error =>
    cases second with
    | error failure => exact .error error failure
    | ok other =>
      obtain ⟨_, impossible⟩ := back other rfl
      cases impossible

end ChainedSdk.Outcome

theorem ChainedSdk.Reported.outcome_foldlM {α β : Type} (step : β → α → Reported β)
    (items : List α) (start : β) :
    (items.foldlM step start).outcome =
      items.foldlM (fun state item => (step state item).outcome) start := by
  induction items generalizing start with
  | nil => rfl
  | cons item rest ih =>
    rw [List.foldlM_cons, List.foldlM_cons, outcome_bind]
    cases (step start item).outcome with
    | error error => rfl
    | ok next => exact ih next
