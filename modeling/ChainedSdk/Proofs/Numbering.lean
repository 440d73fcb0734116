import ChainedSdk.Proofs.MethodNames
import Mathlib.Data.List.Nodup
/-!
# Names in turn

Which names siblings get, said sibling by sibling and without a table of owners: the first one with
a natural name that is not reserved keeps it, and every other one gets the least number whose name
is still free. Assigning gives exactly these names, and it fails exactly at the first sibling for
which no number is left.
-/

namespace ChainedSdk.MethodName

/-- The owner of a name after some siblings: the one among the reserved names, or the first sibling
with this natural name. -/
def owner? (parent? : Option String) (reserved : Table String) (before : List String)
    (name : String) : Option String :=
  (reserved.get? name).or (before.find? fun earlier => natural parent? earlier = name)

/-- A sibling is the first one with its natural name, and the name is not reserved. -/
structure Keeps (parent? : Option String) (reserved : Table String) (before : List String)
    (operation : String) : Prop where
  unreserved : reserved.get? (natural parent? operation) = none
  first : ∀ earlier ∈ before, natural parent? earlier ≠ natural parent? operation

/-- A name is not reserved, no sibling's natural name and not given to anybody yet. -/
structure Free (parent? : Option String) (reserved : Table String)
    (operations given : List String) (name : String) : Prop where
  unreserved : reserved.get? name = none
  unnatural : ∀ operation ∈ operations, natural parent? operation ≠ name
  ungiven : name ∉ given

/-- A number may follow a natural name. -/
structure Fits (config : Config) (name : String) (number : Nat) : Prop where
  atLeast : 2 ≤ number
  atMost : number ≤ config.disambiguationLimit
  short : ∀ limit, config.maxMethodNameLength? = some limit →
    (numbered name number).length ≤ limit

/-- The name that is due to a sibling after the names given to those before it. -/
inductive Due (config : Config) (parent? : Option String) (reserved : Table String)
    (operations given : List String) (operation : String) : String → Prop
  | kept (keeps : Keeps parent? reserved (operations.take given.length) operation) :
      Due config parent? reserved operations given operation (natural parent? operation)
  | moved {number : Nat} (moves : ¬Keeps parent? reserved (operations.take given.length) operation)
      (fits : Fits config (natural parent? operation) number)
      (free : Free parent? reserved operations given (numbered (natural parent? operation) number))
      (least : ∀ smaller, 2 ≤ smaller → smaller < number →
        ¬Free parent? reserved operations given (numbered (natural parent? operation) smaller)) :
      Due config parent? reserved operations given operation
        (numbered (natural parent? operation) number)

/-- The names of the first siblings, each given in its turn as it is due. -/
inductive Named (config : Config) (parent? : Option String) (reserved : Table String)
    (operations : List String) : List String → Prop
  | nil : Named config parent? reserved operations []
  | next {given : List String} {operation name : String}
      (earlier : Named config parent? reserved operations given)
      (turn : operations[given.length]? = some operation)
      (due : Due config parent? reserved operations given operation name) :
      Named config parent? reserved operations (given ++ [name])

/-- A sibling whose turn it is does not keep its natural name, and no number gives a free one. -/
structure Stuck (config : Config) (parent? : Option String) (reserved : Table String)
    (operations given : List String) (operation : String) : Prop where
  named : Named config parent? reserved operations given
  turn : operations[given.length]? = some operation
  moves : ¬Keeps parent? reserved (operations.take given.length) operation
  full : ∀ number, Fits config (natural parent? operation) number →
    ¬Free parent? reserved operations given (numbered (natural parent? operation) number)

variable {config : Config} {parent? : Option String} {reserved owners : Table String}
  {operations given names before : List String} {operation name first : String}

/-! ## Owners -/

theorem owner?_eq_none_iff : owner? parent? reserved before name = none ↔
    reserved.get? name = none ∧ ∀ earlier ∈ before, natural parent? earlier ≠ name := by
  simp [owner?]

theorem keeps_iff : Keeps parent? reserved before operation ↔
    owner? parent? reserved before (natural parent? operation) = none := by
  rw [owner?_eq_none_iff]
  exact ⟨fun keeps => ⟨keeps.unreserved, keeps.first⟩, fun parts => ⟨parts.1, parts.2⟩⟩

instance : Decidable (Keeps parent? reserved before operation) := decidable_of_iff' _ keeps_iff

private theorem owner?_owned {other : String}
    (owned : owners.get? (natural parent? first) = some other) (rest : List String)
    (name : String) : owner? parent? owners (first :: rest) name = owner? parent? owners rest name := by
  unfold owner?
  by_cases same : natural parent? first = name
  · rw [← same, owned]
    rfl
  · simp [same]

private theorem owner?_insert (free : owners.get? (natural parent? first) = none)
    (rest : List String) (name : String) :
    owner? parent? (owners.insert (natural parent? first) first) rest name =
      owner? parent? owners (first :: rest) name := by
  unfold owner?
  rw [Table.get?_insert]
  by_cases same : natural parent? first = name
  · rw [← same, free]
    simp
  · simp [same, Ne.symm same]

/-- After the first pass all natural names have their owners. -/
theorem get?_giveNatural (parent? : Option String) (owners : Table String)
    (operations : List String) (name : String) :
    (giveNatural parent? owners operations).2.get? name = owner? parent? owners operations name := by
  induction operations generalizing owners with
  | nil => simp [giveNatural, owner?]
  | cons operation rest ih =>
    simp only [giveNatural]
    cases owned : owners.get? (natural parent? operation) with
    | some other => exact (ih owners).trans (owner?_owned owned rest name).symm
    | none => exact (ih _).trans (owner?_insert owned rest name)

/-- What a sibling has after the first pass is decided by the siblings before it. -/
def slot (parent? : Option String) (reserved : Table String) (before : List String)
    (operation : String) : Slot :=
  match owner? parent? reserved before (natural parent? operation) with
  | none => .natural (natural parent? operation)
  | some owner => .taken (natural parent? operation) owner

theorem getElem?_giveNatural {place : Nat} (turn : operations[place]? = some operation) :
    (giveNatural parent? owners operations).1[place]? =
      some (slot parent? owners (operations.take place) operation) := by
  induction operations generalizing owners place with
  | nil => simp at turn
  | cons first rest ih =>
    simp only [giveNatural]
    cases place with
    | zero =>
      cases Option.some.inj turn
      cases owned : owners.get? (natural parent? operation) with
      | some other => simp [slot, owner?, owned]
      | none => simp [slot, owner?, owned]
    | succ place =>
      rw [List.getElem?_cons_succ] at turn
      cases owned : owners.get? (natural parent? first) with
      | some other =>
        refine (ih turn).trans ?_
        rw [slot, slot, List.take_succ_cons, owner?_owned owned]
      | none =>
        refine (ih turn).trans ?_
        rw [slot, slot, List.take_succ_cons, owner?_insert owned]

/-! ## The search for a number -/

theorem isTooLong_eq_false_iff : isTooLong config name = false ↔
    ∀ limit, config.maxMethodNameLength? = some limit → name.length ≤ limit := by
  unfold isTooLong
  cases config.maxMethodNameLength? with
  | none => simp
  | some limit => simp

theorem length_numbered_mono (name : String) {smaller number : Nat} (le : smaller ≤ number) :
    (numbered name smaller).length ≤ (numbered name number).length := by
  have digits : (toString smaller).length ≤ (toString number).length := by
    rw [Nat.toString_eq_repr, Nat.toString_eq_repr, Nat.length_repr_le_iff Nat.length_repr_pos]
    exact Nat.lt_of_le_of_lt le ((Nat.length_repr_le_iff Nat.length_repr_pos).mp (Nat.le_refl _))
  rw [numbered, numbered, String.length_append, String.length_append]
  omega

/-- The search ends early only where all further names are too long as well. -/
theorem firstFree?_eq_none {number tries : Nat}
    (failed : firstFree? config owners name number tries = none) :
    ∀ chosen, number ≤ chosen → chosen < number + tries →
      isTooLong config (numbered name chosen) = false →
      owners.get? (numbered name chosen) ≠ none := by
  induction tries generalizing number with
  | zero =>
    intro chosen atLeast below
    omega
  | succ tries ih =>
    intro chosen atLeast below short
    simp only [firstFree?] at failed
    split at failed
    · next tooLong =>
      have shorter : isTooLong config (numbered name number) = false := by
        rw [isTooLong_eq_false_iff] at short ⊢
        exact fun limit isLimit =>
          Nat.le_trans (length_numbered_mono name atLeast) (short limit isLimit)
      rw [shorter] at tooLong
      cases tooLong
    · split at failed
      · next owned =>
        rcases Nat.eq_or_lt_of_le atLeast with rfl | later
        · exact Option.isSome_iff_ne_none.mp owned
        · exact ih failed chosen later (by omega) short
      · cases failed

/-! ## One sibling after the other -/

theorem Due.unique {other : String}
    (one : Due config parent? reserved operations given operation name)
    (another : Due config parent? reserved operations given operation other) : name = other := by
  cases one with
  | kept keeps =>
    cases another with
    | kept _ => rfl
    | moved moves => exact absurd keeps moves
  | @moved number moves fits free least =>
    cases another with
    | kept keeps => exact absurd keeps moves
    | @moved second _ otherFits otherFree otherLeast =>
      rcases Nat.lt_trichotomy number second with below | rfl | above
      · exact absurd free (otherLeast number fits.atLeast below)
      · rfl
      · exact absurd otherFree (least second otherFits.atLeast above)

theorem Named.due_at (named : Named config parent? reserved operations names) {place : Nat}
    (within : place < names.length) : ∃ operation name, operations[place]? = some operation ∧
      names[place]? = some name ∧ Named config parent? reserved operations (names.take place) ∧
      Due config parent? reserved operations (names.take place) operation name := by
  induction named with
  | nil => exact absurd within (Nat.not_lt_zero place)
  | @next given operation name earlier turn due ih =>
    rw [List.length_append, List.length_singleton] at within
    rcases Nat.eq_or_lt_of_le (Nat.lt_succ_iff.mp within) with rfl | before
    · refine ⟨operation, name, turn, List.getElem?_concat_length, ?_⟩
      rw [List.take_left]
      exact ⟨earlier, due⟩
    · obtain ⟨other, old, otherTurn, isOld, further⟩ := ih before
      refine ⟨other, old, otherTurn, ?_, ?_⟩
      · rw [List.getElem?_append_left before]
        exact isOld
      · rw [List.take_append_of_le_length (Nat.le_of_lt before)]
        exact further

theorem Named.unique {others : List String}
    (one : Named config parent? reserved operations names)
    (another : Named config parent? reserved operations others)
    (same : names.length = others.length) : names = others := by
  induction one generalizing others with
  | nil => exact (List.length_eq_zero_iff.mp same.symm).symm
  | @next given operation name earlier turn due ih =>
    cases another with
    | nil => simp at same
    | @next otherGiven otherOperation otherName otherEarlier otherTurn otherDue =>
      have sameGiven := ih otherEarlier (by simpa using same)
      subst sameGiven
      rw [turn] at otherTurn
      cases otherTurn
      rw [due.unique otherDue]

/-- Where a sibling is stuck, nobody has been named at its place or later. -/
theorem Stuck.length_le (stuck : Stuck config parent? reserved operations given operation)
    (named : Named config parent? reserved operations names) : names.length ≤ given.length := by
  refine Nat.le_of_not_lt fun further => ?_
  obtain ⟨other, name, turn, _, earlier, due⟩ := named.due_at further
  have sameGiven := earlier.unique stuck.named (List.length_take_of_le (Nat.le_of_lt further))
  rw [stuck.turn] at turn
  cases turn
  rw [sameGiven] at due
  cases due with
  | kept keeps => exact stuck.moves keeps
  | moved _ fits free _ => exact stuck.full _ fits free

theorem Stuck.length_lt (stuck : Stuck config parent? reserved operations given operation)
    (named : Named config parent? reserved operations names) :
    names.length < operations.length :=
  Nat.lt_of_le_of_lt (stuck.length_le named) (List.getElem?_eq_some_iff.mp stuck.turn).1

theorem Stuck.unique {otherGiven : List String} {other : String}
    (one : Stuck config parent? reserved operations given operation)
    (another : Stuck config parent? reserved operations otherGiven other) :
    given = otherGiven ∧ operation = other := by
  have same := one.named.unique another.named
    (Nat.le_antisymm (another.length_le one.named) (one.length_le another.named))
  subst same
  exact ⟨rfl, Option.some.inj (one.turn.symm.trans another.turn)⟩

/-- What becomes of the siblings that are left: all of them are named in turn, or one is stuck, whose
natural name has an owner. -/
inductive Continues (config : Config) (parent? : Option String) (reserved : Table String)
    (operations given : List String) : Except Error (List String) → Prop
  | named {names : List String}
      (all : Named config parent? reserved operations (given ++ names)) :
      Continues config parent? reserved operations given (.ok names)
  | stuck {reached : List String} {operation owner : String}
      (stuck : Stuck config parent? reserved operations reached operation)
      (isOwner : owner? parent? reserved (operations.take reached.length)
        (natural parent? operation) = some owner) :
      Continues config parent? reserved operations given
        (.error (.methodConflict (natural parent? operation) owner operation parent?))

theorem Continues.next {outcome : Except Error (List String)}
    (continues : Continues config parent? reserved operations (given ++ [name]) outcome) :
    Continues config parent? reserved operations given
      (outcome >>= fun others => pure (name :: others)) := by
  cases continues with
  | named all =>
    rw [List.append_assoc] at all
    exact .named all
  | stuck stuck isOwner => exact .stuck stuck isOwner

/-- The names that nobody owns yet are the free ones. -/
def Tracks (parent? : Option String) (reserved : Table String) (operations given : List String)
    (owners : Table String) : Prop :=
  ∀ name, owners.get? name = none ↔ Free parent? reserved operations given name

theorem tracks_giveNatural (parent? : Option String) (reserved : Table String)
    (operations : List String) :
    Tracks parent? reserved operations [] (giveNatural parent? reserved operations).2 := by
  intro name
  rw [get?_giveNatural, owner?_eq_none_iff]
  exact ⟨fun parts => ⟨parts.1, parts.2, List.not_mem_nil⟩,
    fun free => ⟨free.unreserved, free.unnatural⟩⟩

theorem free_append_iff {latest : String} :
    Free parent? reserved operations (given ++ [latest]) name ↔
      Free parent? reserved operations given name ∧ name ≠ latest := by
  constructor
  · intro free
    have parts := not_or.mp (mt List.mem_append.mpr free.ungiven)
    exact ⟨⟨free.unreserved, free.unnatural, parts.1⟩, mt List.mem_singleton.mpr parts.2⟩
  · rintro ⟨free, differ⟩
    refine ⟨free.unreserved, free.unnatural, fun member => ?_⟩
    rcases List.mem_append.mp member with before | last
    · exact free.ungiven before
    · exact differ (List.mem_singleton.mp last)

/-- A natural name was never free, so giving it changes nothing. -/
theorem Tracks.kept (tracks : Tracks parent? reserved operations given owners)
    (member : operation ∈ operations) :
    Tracks parent? reserved operations (given ++ [natural parent? operation]) owners := by
  intro name
  rw [tracks, free_append_iff]
  refine ⟨fun free => ⟨free, fun same => ?_⟩, And.left⟩
  exact free.unnatural operation member same.symm

theorem Tracks.insert (tracks : Tracks parent? reserved operations given owners)
    (latest operation : String) :
    Tracks parent? reserved operations (given ++ [latest]) (owners.insert latest operation) := by
  intro name
  rw [free_append_iff, ← tracks, Table.get?_insert]
  split
  · next same => simp [same]
  · next differ => simp [differ]

theorem Tracks.due_of_firstFree? (tracks : Tracks parent? reserved operations given owners)
    (moves : ¬Keeps parent? reserved (operations.take given.length) operation)
    (found : firstFree? config owners (natural parent? operation) 2
      (config.disambiguationLimit - 1) = some name) :
    Due config parent? reserved operations given operation name := by
  obtain ⟨number, atLeast, below, rfl, short, free, least⟩ := firstFree?_eq_some found
  refine .moved moves ⟨atLeast, by omega, isTooLong_eq_false_iff.mp short⟩ ((tracks _).mp free) ?_
  intro smaller isSmaller before freeBefore
  exact least smaller isSmaller before ((tracks _).mpr freeBefore)

theorem Tracks.full_of_firstFree? (tracks : Tracks parent? reserved operations given owners)
    (failed : firstFree? config owners name 2 (config.disambiguationLimit - 1) = none)
    (number : Nat) (fits : Fits config name number) :
    ¬Free parent? reserved operations given (numbered name number) := by
  intro free
  have within : number < 2 + (config.disambiguationLimit - 1) := by
    have := fits.atLeast
    have := fits.atMost
    omega
  exact firstFree?_eq_none failed number fits.atLeast within
    (isTooLong_eq_false_iff.mpr fits.short) ((tracks _).mpr free)

theorem giveNumbered_continues {rest : List (String × Slot)}
    (named : Named config parent? reserved operations given)
    (left : (operations.zip (giveNatural parent? reserved operations).1).drop given.length = rest)
    (tracks : Tracks parent? reserved operations given owners) :
    Continues config parent? reserved operations given
      (giveNumbered config parent? owners rest) := by
  induction rest generalizing given owners with
  | nil =>
    rw [← List.append_nil given] at named
    exact .named named
  | cons sibling rest ih =>
    obtain ⟨operation, assigned⟩ := sibling
    have here : (operations.zip (giveNatural parent? reserved operations).1)[given.length]? =
        some (operation, assigned) := by
      rw [← Nat.add_zero given.length, ← List.getElem?_drop, left]
      rfl
    have later (name : String) : (operations.zip (giveNatural parent? reserved operations).1).drop
        (given ++ [name]).length = rest := by
      rw [List.length_append, List.length_singleton, ← List.drop_drop, left]
      rfl
    obtain ⟨turn, isSlot⟩ : operations[given.length]? = some operation ∧ _ = some assigned :=
      List.getElem?_zip_eq_some.mp here
    rw [getElem?_giveNatural turn, slot] at isSlot
    cases owned : owner? parent? reserved (operations.take given.length)
        (natural parent? operation) with
    | none =>
      rw [owned] at isSlot
      cases isSlot
      have due : Due config parent? reserved operations given operation _ :=
        .kept (keeps_iff.mpr owned)
      exact (ih (named.next turn due) (later _)
        (tracks.kept (List.mem_of_getElem? turn))).next
    | some owner =>
      rw [owned] at isSlot
      cases isSlot
      have moves : ¬Keeps parent? reserved (operations.take given.length) operation := by
        rw [keeps_iff, owned]
        exact Option.some_ne_none owner
      simp only [giveNumbered]
      cases found : firstFree? config owners (natural parent? operation) 2
          (config.disambiguationLimit - 1) with
      | none => exact .stuck ⟨named, turn, moves, tracks.full_of_firstFree? found⟩ owned
      | some name =>
        have due := tracks.due_of_firstFree? moves found
        exact (ih (named.next turn due) (later _) (tracks.insert name operation)).next

theorem assign_continues (config : Config) (parent? : Option String) (reserved : Table String)
    (operations : List String) : Continues config parent? reserved operations []
      (assign config parent? reserved operations) :=
  giveNumbered_continues .nil rfl (tracks_giveNatural parent? reserved operations)

/-- Siblings get exactly the names that are due to them one after the other: distinct names that are
not reserved. Assigning fails exactly where it comes to a sibling for which no number is left, and
reports its natural name with the owner of that and the sibling. -/
theorem assign_in_turn (config : Config) (parent? : Option String) (reserved : Table String)
    (operations : List String) :
    (∀ names, assign config parent? reserved operations = .ok names ↔
      Named config parent? reserved operations names ∧ names.length = operations.length ∧
        names.Nodup ∧ ∀ name ∈ names, reserved.get? name = none) ∧
    ∀ error, assign config parent? reserved operations = .error error ↔
      ∃ given operation owner, Stuck config parent? reserved operations given operation ∧
        owner? parent? reserved (operations.take given.length) (natural parent? operation) =
          some owner ∧
        error = .methodConflict (natural parent? operation) owner operation parent? := by
  have continues := assign_continues config parent? reserved operations
  constructor
  · intro names
    constructor
    · intro assigned
      refine ⟨?_, assign_length assigned, assign_nodup assigned, assign_not_reserved assigned⟩
      rw [assigned] at continues
      cases continues with
      | named all => exact all
    · rintro ⟨named, whole, _⟩
      cases ran : assign config parent? reserved operations with
      | ok others =>
        rw [ran] at continues
        cases continues with
        | named all =>
          exact congrArg _ (all.unique named ((assign_length ran).trans whole.symm))
      | error error =>
        rw [ran] at continues
        cases continues with
        | stuck stuck _ => exact absurd (stuck.length_lt named) (by omega)
  · intro error
    constructor
    · intro failed
      rw [failed] at continues
      cases continues with
      | stuck stuck isOwner => exact ⟨_, _, _, stuck, isOwner, rfl⟩
    · rintro ⟨given, operation, owner, stuck, isOwner, rfl⟩
      cases ran : assign config parent? reserved operations with
      | ok others =>
        have whole := assign_length ran
        rw [ran] at continues
        cases continues with
        | named all => exact absurd (stuck.length_lt all) (by simpa using Nat.le_of_eq whole.symm)
      | error error =>
        rw [ran] at continues
        cases continues with
        | stuck otherStuck isOther =>
          obtain ⟨rfl, rfl⟩ := stuck.unique otherStuck
          rw [isOwner] at isOther
          cases isOther
          rfl

/-! ## Where names could be found at all -/

/-- A way to name all siblings: with distinct names that are not reserved, where the first one with
a natural name that is not reserved keeps it and every other one has a number that fits. -/
structure Assignment (config : Config) (parent? : Option String) (reserved : Table String)
    (operations names : List String) : Prop where
  length_eq : names.length = operations.length
  distinct : names.Nodup
  unreserved : ∀ name ∈ names, reserved.get? name = none
  kept : ∀ place operation, operations[place]? = some operation →
    Keeps parent? reserved (operations.take place) operation →
    names[place]? = some (natural parent? operation)
  moved : ∀ place operation, operations[place]? = some operation →
    ¬Keeps parent? reserved (operations.take place) operation →
    ∃ number, Fits config (natural parent? operation) number ∧
      names[place]? = some (numbered (natural parent? operation) number)

/-- A numbered name that a sibling could have had went to an earlier one with another natural
name. -/
def Loses (config : Config) (parent? : Option String) (reserved : Table String)
    (operations given : List String) (operation : String) : Prop :=
  ∃ (place : Nat) (other : String) (number : Nat), operations[place]? = some other ∧
    natural parent? other ≠ natural parent? operation ∧
    Fits config (natural parent? operation) number ∧
    Free parent? reserved operations [] (numbered (natural parent? operation) number) ∧
    given[place]? = some (numbered (natural parent? operation) number)

theorem exists_keeps (unreserved : reserved.get? name = none) (member : operation ∈ operations)
    (same : natural parent? operation = name) : ∃ place keeper, operations[place]? = some keeper ∧
      natural parent? keeper = name ∧ Keeps parent? reserved (operations.take place) keeper := by
  cases found : operations.find? fun other => natural parent? other = name with
  | none => exact absurd (by simpa using same) (List.find?_eq_none.mp found operation member)
  | some keeper =>
    obtain ⟨isNatural, before, after, rfl, none_⟩ := List.find?_eq_some_iff_append.mp found
    have hasName : natural parent? keeper = name := by simpa using isNatural
    refine ⟨before.length, keeper, by simp, hasName, ?_, fun earlier isBefore => ?_⟩
    · rw [hasName]
      exact unreserved
    · rw [List.take_left] at isBefore
      rw [hasName]
      simpa using none_ earlier isBefore

/-- The sibling at a place has some natural name and does not keep it. -/
def Contends (parent? : Option String) (reserved : Table String) (operations : List String)
    (name : String) (place : Nat) : Prop :=
  ∃ operation, operations[place]? = some operation ∧ natural parent? operation = name ∧
    ¬Keeps parent? reserved (operations.take place) operation

theorem Contends.lt_length {place : Nat}
    (contends : Contends parent? reserved operations name place) : place < operations.length :=
  let ⟨_, turn, _⟩ := contends
  (List.getElem?_eq_some_iff.mp turn).1

/-- A number in an assignment never gives a natural name, which somebody else keeps. -/
theorem Assignment.exists_number {place : Nat}
    (possible : Assignment config parent? reserved operations names)
    (contends : Contends parent? reserved operations name place) :
    ∃ number, Fits config name number ∧
      Free parent? reserved operations [] (numbered name number) ∧
      names[place]? = some (numbered name number) := by
  obtain ⟨operation, turn, rfl, moves⟩ := contends
  obtain ⟨number, fits, isName⟩ := possible.moved place operation turn moves
  have unreserved := possible.unreserved _ (List.mem_of_getElem? isName)
  refine ⟨number, fits, ⟨unreserved, fun other member same => ?_, List.not_mem_nil⟩, isName⟩
  obtain ⟨first, keeper, keeperTurn, isNatural, keeps⟩ := exists_keeps unreserved member same
  have kept := possible.kept first keeper keeperTurn keeps
  rw [isNatural, ← isName] at kept
  have within : first < names.length := by
    rw [possible.length_eq]
    exact (List.getElem?_eq_some_iff.mp keeperTurn).1
  have samePlace := (List.getElem?_inj within possible.distinct).mp kept
  rw [samePlace, turn] at keeperTurn
  cases keeperTurn
  rw [samePlace] at keeps
  exact moves keeps

/-- A numbered name that a stuck sibling could have had was given to an earlier one that did not
keep its natural name either. -/
theorem Stuck.exists_place {number : Nat}
    (stuck : Stuck config parent? reserved operations given operation)
    (fits : Fits config (natural parent? operation) number)
    (free : Free parent? reserved operations [] (numbered (natural parent? operation) number)) :
    ∃ place other, place < given.length ∧
      Contends parent? reserved operations (natural parent? other) place ∧
      operations[place]? = some other ∧
      given[place]? = some (numbered (natural parent? operation) number) := by
  have taken : numbered (natural parent? operation) number ∈ given :=
    by_contra fun ungiven => stuck.full number fits ⟨free.unreserved, free.unnatural, ungiven⟩
  obtain ⟨place, within, isName⟩ := List.mem_iff_getElem.mp taken
  have here := List.getElem?_eq_some_iff.mpr ⟨within, isName⟩
  obtain ⟨other, name, turn, found, _, due⟩ := stuck.named.due_at within
  refine ⟨place, other, within, ⟨other, turn, rfl, ?_⟩, turn, here⟩
  rw [here] at found
  cases found
  generalize numbered (natural parent? operation) _ = name at due free
  cases due with
  | kept _ => exact absurd rfl (free.unnatural other (List.mem_of_getElem? turn))
  | moved moves =>
    rw [List.length_take_of_le (Nat.le_of_lt within)] at moves
    exact moves

/-- A stuck sibling has lost a name if there is an assignment: had all names that it could have had
gone to siblings with its own natural name, then these would be too many for the assignment. -/
theorem Stuck.loses (stuck : Stuck config parent? reserved operations given operation)
    (possible : Assignment config parent? reserved operations names) :
    Loses config parent? reserved operations given operation := by
  classical
  by_contra lost
  let earlier := (List.range given.length).filter
    (Contends parent? reserved operations (natural parent? operation))
  have contends : ∀ place ∈ earlier ++ [given.length],
      Contends parent? reserved operations (natural parent? operation) place := by
    intro place member
    rcases List.mem_append.mp member with before | last
    · simpa using (List.mem_filter.mp before).2
    · rw [List.mem_singleton.mp last]
      exact ⟨operation, stuck.turn, rfl, stuck.moves⟩
  have places : (earlier ++ [given.length]).Nodup := by
    refine List.nodup_append.mpr ⟨List.nodup_range.filter _, List.nodup_singleton _, ?_⟩
    intro place member last isLast
    rw [List.mem_singleton.mp isLast]
    exact Nat.ne_of_lt (List.mem_range.mp (List.mem_filter.mp member).1)
  have distinct : ((earlier ++ [given.length]).map fun place => names[place]?).Nodup := by
    refine places.map_on fun place member other _ same => ?_
    have within : place < names.length := possible.length_eq ▸ (contends place member).lt_length
    exact (List.getElem?_inj within possible.distinct).mp same
  have taken : ((earlier ++ [given.length]).map fun place => names[place]?) ⊆
      earlier.map fun place => given[place]? := by
    intro wanted member
    obtain ⟨place, isPlace, rfl⟩ := List.mem_map.mp member
    obtain ⟨number, fits, free, isName⟩ := possible.exists_number (contends place isPlace)
    obtain ⟨holder, other, within, holds, turn, isGiven⟩ := stuck.exists_place fits free
    have same : natural parent? other = natural parent? operation :=
      by_contra fun differ => lost ⟨holder, other, number, turn, differ, fits, free, isGiven⟩
    rw [same] at holds
    exact List.mem_map.mpr ⟨holder, List.mem_filter.mpr ⟨List.mem_range.mpr within,
      decide_eq_true holds⟩, isGiven.trans isName.symm⟩
  have tooMany := distinct.length_le_of_subset taken
  rw [List.length_map, List.length_map, List.length_append, List.length_singleton] at tooMany
  omega

/-- Where the siblings can be named at all, assigning names them, unless a numbered name that some
sibling could have had went to an earlier one with another natural name. -/
theorem assign_of_assignment {names : List String}
    (possible : Assignment config parent? reserved operations names) :
    (∃ given, assign config parent? reserved operations = .ok given) ∨
    ∃ given operation owner, Stuck config parent? reserved operations given operation ∧
      assign config parent? reserved operations =
        .error (.methodConflict (natural parent? operation) owner operation parent?) ∧
      Loses config parent? reserved operations given operation := by
  have continues := assign_continues config parent? reserved operations
  generalize assign config parent? reserved operations = outcome at continues ⊢
  cases continues with
  | named all => exact Or.inl ⟨_, rfl⟩
  | stuck stuck _ => exact Or.inr ⟨_, _, _, stuck, rfl, stuck.loses possible⟩

private def listConfig : Config := { disambiguationLimit := 12 }

private def listReserved : Table String := Table.ofList
  (["list", "list1", "list2", "list3", "list4", "list5", "list6", "list7", "list8", "list9",
    "list10", "list11"].map fun name => (name, "Team." ++ name))

/-- Two siblings that could both be named, as `list13` and `list12`. But the first one takes `list12`,
the only name for the second one, before it. -/
theorem exists_assignment_unfound :
    Assignment listConfig none listReserved ["list1", "list"] ["list13", "list12"] ∧
      assign listConfig none listReserved ["list1", "list"] =
        .error (.methodConflict "list" "Team.list" "list" none) := by
  refine ⟨⟨rfl, by decide, by decide, ?_, ?_⟩, by decide⟩
  · intro place operation turn keeps
    have reserved : ∀ operation ∈ ["list1", "list"],
        listReserved.get? (natural none operation) ≠ none := by decide
    exact absurd keeps.unreserved (reserved operation (List.mem_of_getElem? turn))
  · intro place operation turn _
    rcases place with _ | _ | place
    · cases turn
      exact ⟨3, ⟨by decide, by decide, fun _ impossible => by cases impossible⟩, by decide⟩
    · cases turn
      exact ⟨12, ⟨by decide, by decide, fun _ impossible => by cases impossible⟩, by decide⟩
    · cases turn

/-- The second of two equal names is numbered, past a third one that ends in a digit. -/
theorem assign_of_assignment_list :
    Assignment {} none ∅ ["list1", "list", "list"] ["list1", "list", "list2"] ∧
    ((∃ given, assign {} none ∅ ["list1", "list", "list"] = .ok given) ∨
    ∃ given operation owner, Stuck {} none ∅ ["list1", "list", "list"] given operation ∧
      assign {} none ∅ ["list1", "list", "list"] =
        .error (.methodConflict (natural none operation) owner operation none) ∧
      Loses {} none ∅ ["list1", "list", "list"] given operation) := by
  have possible : Assignment {} none ∅ ["list1", "list", "list"] ["list1", "list", "list2"] := by
    refine ⟨rfl, by decide, by decide, ?_, ?_⟩
    · intro place operation turn keeps
      rcases place with _ | _ | _ | place
      · cases turn
        rfl
      · cases turn
        rfl
      · cases turn
        exact absurd rfl (keeps.first "list" (by decide))
      · cases turn
    · intro place operation turn moves
      rcases place with _ | _ | _ | place
      · cases turn
        exact absurd (by decide) moves
      · cases turn
        exact absurd (by decide) moves
      · cases turn
        exact ⟨2, ⟨by decide, by decide, fun _ impossible => by cases impossible⟩, by decide⟩
      · cases turn
  exact ⟨possible, assign_of_assignment possible⟩

end ChainedSdk.MethodName
