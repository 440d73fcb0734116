import ChainedSdk.Config.Load
import ChainedSdk.Proofs.Outcomes
import ChainedSdk.Proofs.Tables
import Mathlib.Data.List.Induction
/-!
# Overridden settings

A setting that is overridden has the last value that is given for it, under its name or its key, and
every other one is read as before. What a configuration is written as is read back as it was. So it
comes to the same whether settings are overridden before they are read or in the configuration that
was read from them.
-/

namespace ChainedSdk

namespace Setting

/-- The value that an override gives a setting; null gives none. -/
def given? (setting : Setting) : String × Json → Option Json
  | (_, .null) => none
  | (name, value) => if name = setting.name ∨ name = setting.key then some value else none

/-- The value that some overrides give a setting, which is the last one. -/
def override? (setting : Setting) (overrides : List (String × Json)) : Option Json :=
  overrides.reverse.findSome? setting.given?

variable {setting : Setting} {settings : Table Json}

theorem override?_snoc (overrides : List (String × Json)) (override : String × Json) :
    setting.override? (overrides ++ [override]) =
      (setting.given? override).or (setting.override? overrides) := by
  rw [override?, List.reverse_append, List.reverse_singleton, List.singleton_append,
    List.findSome?_cons, override?]
  cases setting.given? override with
  | none => rfl
  | some value => rfl

theorem given?_of_ne_null {name : String} {value : Json} (present : value ≠ .null) :
    setting.given? (name, value) =
      if name = setting.name ∨ name = setting.key then some value else none := by
  cases value with
  | null => exact absurd rfl present
  | _ => rfl

/-! ## Where overrides go -/

/-- The key of a setting is neither the name nor the key of another one. -/
theorem eq_of_shared_key : ∀ setting ∈ all, ∀ other ∈ all,
    other.key = setting.name ∨ other.key = setting.key → other = setting := by
  decide +kernel

theorem overrideKey_name : ∀ setting ∈ all, overrideKey setting.name = setting.key := by
  decide +kernel

theorem overrideKey_key : ∀ setting ∈ all, overrideKey setting.key = setting.key := by
  decide +kernel

theorem overrideKey_eq (known : setting ∈ all) {name : String}
    (called : name = setting.name ∨ name = setting.key) : overrideKey name = setting.key := by
  rcases called with rfl | rfl
  · exact overrideKey_name setting known
  · exact overrideKey_key setting known

/-- What overrides no setting under its name or its key goes elsewhere. -/
theorem overrideKey_ne (known : setting ∈ all) {name : String}
    (apart : ¬(name = setting.name ∨ name = setting.key)) :
    ¬(overrideKey name = setting.name ∨ overrideKey name = setting.key) := by
  unfold overrideKey
  split
  · next other found =>
    intro shared
    have same := eq_of_shared_key setting known other (List.mem_of_find?_eq_some found) shared
    have isName := List.find?_some found
    rw [decide_eq_true_eq] at isName
    exact apart (Or.inl (same ▸ isName.symm))
  · exact apart

theorem lookup?_applyOverride (known : setting ∈ all) (settings : Table Json)
    (override : String × Json) : setting.lookup? (applyOverride settings override) =
      ((setting.given? override).map fun value => (setting.key, value)).or
        (setting.lookup? settings) := by
  obtain ⟨name, value⟩ := override
  by_cases absent : value = .null
  · subst absent
    rfl
  have applied : applyOverride settings (name, value) =
      (settings.erase name).insert (overrideKey name) value := by
    cases value with
    | null => exact absurd rfl absent
    | _ => rfl
  rw [applied, given?_of_ne_null absent, lookup?, lookup?, Table.get?_insert, Table.get?_insert,
    Table.get?_erase, Table.get?_erase]
  by_cases called : name = setting.name ∨ name = setting.key
  · rw [if_pos (overrideKey_eq known called).symm, if_pos called]
    rfl
  · have elsewhere := not_or.mp (overrideKey_ne known called)
    have other := not_or.mp called
    rw [if_neg (Ne.symm elsewhere.1), if_neg (Ne.symm elsewhere.2), if_neg (Ne.symm other.1),
      if_neg (Ne.symm other.2), if_neg called]
    rfl

/-- An overridden setting is found under its key, whatever spellings the table has of it. -/
theorem lookup?_applyOverrides (known : setting ∈ all) (settings : Table Json)
    (overrides : List (String × Json)) : setting.lookup? (applyOverrides settings overrides) =
      ((setting.override? overrides).map fun value => (setting.key, value)).or
        (setting.lookup? settings) := by
  -- From the end of the overrides, since the last one counts.
  induction overrides using List.reverseRecOn with
  | nil => rfl
  | append_singleton overrides override ih =>
    have last : applyOverrides settings (overrides ++ [override]) =
        applyOverride (applyOverrides settings overrides) override := List.foldl_append
    rw [last, lookup?_applyOverride known, ih, override?_snoc]
    cases setting.given? override with
    | none => rfl
    | some value => rfl

/-! ## Reading what was written -/

theorem readDocumentMode_text (mode : DocumentMode) :
    readDocumentMode (.text mode.text) = .ok mode := by
  rw [readDocumentMode, DocumentMode.ofText?_text]

theorem readChainMatch_text (rule : ChainMatch) : readChainMatch (.text rule.text) = .ok rule := by
  rw [readChainMatch, ChainMatch.ofText?_text]

theorem readItems_map_text (index : Nat) (items : List String) :
    readItems index (items.map .text) = .ok items := by
  induction items generalizing index with
  | nil => rfl
  | cons item rest ih =>
    rw [List.map_cons, readItems, ih]
    rfl

private theorem foldlM_text (entries : List (String × String)) (read : Table String) :
    (entries.map fun entry => (entry.1, Json.text entry.2)).foldlM
      (fun read member => do
        return read.insert member.1 (← under member.1 (readText member.2))) read =
      (.ok (read.insertAll entries) : Reading (Table String)) := by
  induction entries generalizing read with
  | nil => rfl
  | cons entry rest ih =>
    rw [List.map_cons, List.foldlM_cons]
    exact ih (read.insert entry.1 entry.2)

theorem readDictionary_object (table : Table String) :
    readDictionary (.object (table.toList.map fun entry => (entry.1, .text entry.2))) =
      .ok table := by
  have distinct : ((table.toList.map fun entry => (entry.1, Json.text entry.2)).map
      Prod.fst).Nodup := by
    rw [List.map_map]
    exact table.nodup_keys
  rw [readDictionary, Table.toList_ofList distinct, foldlM_text]
  exact congrArg Except.ok (Table.ofList_toList table)

theorem readNat_integer (value : Nat) : readNat (.integer value) = .ok value := by
  have bound : ¬(value : Int) < 0 := by omega
  show (if (value : Int) < 0 then misfit .belowZero else pure (value : Int).toNat) = _
  rw [if_neg bound]
  rfl

theorem readLimit_integer {value : Nat} (positive : 0 < value) :
    readLimit (.integer value) = .ok (some value) := by
  have bound : ¬(value : Int) ≤ 0 := by omega
  show (if (value : Int) ≤ 0 then misfit .notPositive else pure (some (value : Int).toNat)) = _
  rw [if_neg bound]
  rfl

theorem positive_of_readLimit {json : Json} {value : Nat}
    (read : readLimit json = .ok (some value)) : 0 < value := by
  unfold readLimit at read
  split at read
  · cases read
  · obtain ⟨found, _, checked⟩ := Outcome.bind_eq_ok_iff.mp read
    split at checked
    · cases checked
    · cases checked
      omega

end Setting

namespace Config

/-! ## The slots of a configuration -/

/-- A setting with its values: how they are read and written, and where a configuration has them. -/
structure Slot where
  {Value : Type}
  setting : Setting
  read : Json → Setting.Reading Value
  write : Value → Json
  get : Config → Value

/-- How a limit is written; null stands for none. -/
def writeLimit : Option Nat → Json
  | some limit => .integer limit
  | none => .null

/-- A slot for every setting, in the order in which they are read. -/
def slots : List Slot := [
  ⟨.documentFile, Setting.readText, .text, (·.documentFile)⟩,
  ⟨.documentMode, Setting.readDocumentMode, fun mode => .text mode.text, (·.documentMode)⟩,
  ⟨.scalars, Setting.readDictionary,
    fun table => .object (table.toList.map fun entry => (entry.1, .text entry.2)), (·.scalars)⟩,
  ⟨.defaultScalarType, Setting.readText, .text, (·.defaultScalarType)⟩,
  ⟨.identifyingFields, Setting.readTuple, .texts, (·.identifyingFields)⟩,
  ⟨.chainMatch, Setting.readChainMatch, fun rule => .text rule.text, (·.chainMatch)⟩,
  ⟨.requireNamePrefix, Setting.readBoolean, .boolean, (·.requireNamePrefix)⟩,
  ⟨.disambiguationLimit, Setting.readNat, fun limit => .integer limit, (·.disambiguationLimit)⟩,
  ⟨.maxMethodNameLength, Setting.readLimit, writeLimit, (·.maxMethodNameLength?)⟩,
  ⟨.requesterName, Setting.readText, .text, (·.requesterName)⟩,
  ⟨.sdkName, Setting.readText, .text, (·.sdkName)⟩]

/-- The value of a slot in a table of settings, which is that of the default configuration where the
table has none. -/
def Slot.readFrom (slot : Slot) (settings : Table Json) : Except Error slot.Value :=
  slot.setting.read settings (slot.get {}) slot.read

variable {settings : Table Json} {config : Config} {slot : Slot}

theorem map_setting_slots : slots.map (·.setting) = Setting.all := rfl

theorem dump_eq (key : Setting → String) (config : Config) :
    config.dump key = slots.map fun slot => (key slot.setting, slot.write (slot.get config)) := rfl

theorem ofSettings_eq_ok_iff : ofSettings settings = .ok config ↔
    ∀ slot ∈ slots, slot.readFrom settings = .ok (slot.get config) := by
  unfold ofSettings slots
  simp only [List.forall_mem_cons, Outcome.bind_eq_ok_iff, Slot.readFrom]
  constructor
  · rintro ⟨_, file, _, mode, _, scalars, _, scalar, _, fields, _, rule, _, named, _, tries, _,
      length, _, requester, _, sdk, same⟩
    cases same
    exact ⟨file, mode, scalars, scalar, fields, rule, named, tries, length, requester, sdk, nofun⟩
  · rintro ⟨file, mode, scalars, scalar, fields, rule, named, tries, length, requester, sdk, _⟩
    exact ⟨_, file, _, mode, _, scalars, _, scalar, _, fields, _, rule, _, named, _, tries, _,
      length, _, requester, _, sdk, rfl⟩

theorem ofSettings_congr {other : Table Json}
    (same : ∀ slot ∈ slots, slot.readFrom settings = slot.readFrom other) :
    ofSettings settings = ofSettings other := by
  simp only [slots, List.forall_mem_cons, Slot.readFrom] at same
  obtain ⟨file, mode, scalars, scalar, fields, rule, named, tries, length, requester, sdk, _⟩ :=
    same
  unfold ofSettings
  simp only [file, mode, scalars, scalar, fields, rule, named, tries, length, requester, sdk]

/-- What a slot has read is read back from what it is written as. -/
theorem Slot.read_write (member : slot ∈ slots) {json : Json} {value : slot.Value}
    (done : slot.read json = .ok value) : slot.read (slot.write value) = .ok value := by
  revert json value
  revert slot
  simp only [slots, List.forall_mem_cons]
  refine ⟨?_, ?_, ?_, ?_, ?_, ?_, ?_, ?_, ?_, ?_, ?_, nofun⟩
  · exact fun _ => rfl
  · exact fun _ => Setting.readDocumentMode_text _
  · exact fun _ => Setting.readDictionary_object _
  · exact fun _ => rfl
  · exact fun _ => Setting.readItems_map_text 0 _
  · exact fun _ => Setting.readChainMatch_text _
  · exact fun _ => rfl
  · exact fun _ => Setting.readNat_integer _
  · intro json limit? done
    cases limit? with
    | none => rfl
    | some limit => exact Setting.readLimit_integer (Setting.positive_of_readLimit done)
  · exact fun _ => rfl
  · exact fun _ => rfl

theorem Slot.read_write_default : ∀ slot ∈ slots,
    slot.read (slot.write (slot.get {})) = .ok (slot.get {}) := by
  simp only [slots, List.forall_mem_cons]
  exact ⟨rfl, rfl, rfl, rfl, rfl, rfl, rfl, rfl, rfl, rfl, rfl, nofun⟩

theorem Slot.read_write_readFrom (member : slot ∈ slots) {value : slot.Value}
    (done : slot.readFrom settings = .ok value) : slot.read (slot.write value) = .ok value := by
  unfold readFrom Setting.read at done
  split at done
  · cases done
    exact read_write_default slot member
  · split at done
    · next isRead =>
      cases done
      exact read_write member isRead
    · cases done

/-! ## Overriding before and after reading -/

theorem Slot.setting_mem_all (member : slot ∈ slots) : slot.setting ∈ Setting.all :=
  map_setting_slots ▸ List.mem_map_of_mem member

/-- Only what is found under its key or its name matters to a slot. -/
theorem Slot.readFrom_congr {other : Table Json}
    (same : slot.setting.lookup? settings = slot.setting.lookup? other) :
    slot.readFrom settings = slot.readFrom other := by
  rw [readFrom, Setting.read, same, readFrom, Setting.read]

theorem Slot.readFrom_eq_ok_iff {name : String} {value : Json} {result : slot.Value}
    (found : slot.setting.lookup? settings = some (name, value)) :
    slot.readFrom settings = .ok result ↔ slot.read value = .ok result := by
  rw [readFrom, Setting.read, found]
  dsimp only
  cases slot.read value with
  | error misfit => simp
  | ok value => simp

theorem lookup?_toSettings (config : Config) (member : slot ∈ slots) :
    slot.setting.lookup? config.toSettings =
      some (slot.setting.key, slot.write (slot.get config)) := by
  have distinct : ((config.dump Setting.key).map Prod.fst).Nodup := by
    rw [dump_eq, List.map_map]
    show (slots.map fun slot => slot.setting.key).Nodup
    decide +kernel
  have held : config.toSettings.get? slot.setting.key = some (slot.write (slot.get config)) := by
    rw [toSettings, Table.get?_ofList_iff distinct, dump_eq]
    exact List.mem_map_of_mem member
  rw [Setting.lookup?, held]

theorem readFrom_toSettings (loaded : ofSettings settings = .ok config) (member : slot ∈ slots) :
    slot.readFrom config.toSettings = .ok (slot.get config) :=
  (Slot.readFrom_eq_ok_iff (lookup?_toSettings config member)).mpr
    (Slot.read_write_readFrom member (ofSettings_eq_ok_iff.mp loaded slot member))

/-- A configuration that was read is read back from what it is written as. -/
theorem ofSettings_toSettings (loaded : ofSettings settings = .ok config) :
    ofSettings config.toSettings = .ok config :=
  ofSettings_eq_ok_iff.mpr fun _ member => readFrom_toSettings loaded member

/-- What is overridden is found alike in all tables. -/
theorem Slot.lookup?_of_override? (member : slot ∈ slots) {overrides : List (String × Json)}
    {value : Json} (overridden : slot.setting.override? overrides = some value)
    (settings : Table Json) : slot.setting.lookup? (Setting.applyOverrides settings overrides) =
      some (slot.setting.key, value) := by
  rw [Setting.lookup?_applyOverrides (setting_mem_all member), overridden]
  rfl

theorem Slot.lookup?_of_not_override? (member : slot ∈ slots) {overrides : List (String × Json)}
    (kept : slot.setting.override? overrides = none) (settings : Table Json) :
    slot.setting.lookup? (Setting.applyOverrides settings overrides) =
      slot.setting.lookup? settings := by
  rw [Setting.lookup?_applyOverrides (setting_mem_all member), kept]
  rfl

theorem load_toSettings (loaded : ofSettings settings = .ok config)
    (overrides : List (String × Json)) :
    load config.toSettings overrides = load settings overrides := by
  refine ofSettings_congr fun slot member => ?_
  cases overridden : slot.setting.override? overrides with
  | some value =>
    refine Slot.readFrom_congr ?_
    rw [slot.lookup?_of_override? member overridden, slot.lookup?_of_override? member overridden]
  | none =>
    rw [Slot.readFrom_congr (slot.lookup?_of_not_override? member overridden _),
      Slot.readFrom_congr (slot.lookup?_of_not_override? member overridden _),
      readFrom_toSettings loaded member, ofSettings_eq_ok_iff.mp loaded slot member]

/-- A slot has the value that some overrides give it, or else the one from before. -/
def Slot.Follows (slot : Slot) (overrides : List (String × Json)) (before after : Config) : Prop :=
  match slot.setting.override? overrides with
  | some value => slot.read value = .ok (slot.get after)
  | none => slot.get after = slot.get before

theorem Slot.follows_of_load (loaded : ofSettings settings = .ok config)
    {overrides : List (String × Json)} {result : Config}
    (overriding : load settings overrides = .ok result) (member : slot ∈ slots) :
    slot.Follows overrides config result := by
  have isRead := ofSettings_eq_ok_iff.mp overriding slot member
  unfold Follows
  split
  · next value overridden =>
    exact (readFrom_eq_ok_iff (slot.lookup?_of_override? member overridden settings)).mp isRead
  · next kept =>
    rw [readFrom_congr (slot.lookup?_of_not_override? member kept settings),
      ofSettings_eq_ok_iff.mp loaded slot member] at isRead
    exact (Except.ok.inj isRead).symm

/-- To override settings of a configuration that was read comes to the same as to override them in
the table that it was read from, with the same misfit if there is one. An overridden setting then
has what the last of its overrides is read as, whatever spellings the table has of it, and every
other setting has the value that it had. -/
theorem reload_eq_load (loaded : load settings [] = .ok config)
    (overrides : List (String × Json)) :
    config.reload overrides = load settings overrides ∧
      ∀ result, load settings overrides = .ok result →
        ∀ slot ∈ slots, slot.Follows overrides config result := by
  refine ⟨?_, fun _ overriding slot member => slot.follows_of_load loaded overriding member⟩
  cases overrides with
  | nil => exact loaded.symm
  | cons override rest => exact load_toSettings loaded (override :: rest)

private def bothSpellings : Table Json := Table.ofList
  [("sdk_name", .text "Plain"), ("documentFile", .text "a.ts"), ("document_file", .text "b.ts"),
    ("max_method_name_length", .integer 30)]

private def mixedOverrides : List (String × Json) :=
  [("documentFile", .text "c.ts"), ("document_file", .text "d.ts"), ("sdkName", .text "Chained"),
    ("max_method_name_length", .null), ("chain_match", .text "any")]

/-- Settings in either spelling and in both, overridden in either spelling and in both. -/
theorem reload_eq_load_spellings : ∃ config result,
    load bothSpellings [] = .ok config ∧ load bothSpellings mixedOverrides = .ok result ∧
    config.reload mixedOverrides = load bothSpellings mixedOverrides ∧
    (∀ slot ∈ slots, slot.Follows mixedOverrides config result) ∧
    (config.documentFile, config.sdkName, config.chainMatch) = ("a.ts", "Plain", .identifying) ∧
    (result.documentFile, result.sdkName, result.chainMatch) = ("d.ts", "Chained", .any) ∧
    result.maxMethodNameLength? = some 30 := by
  have loaded : load bothSpellings [] =
      .ok { documentFile := "a.ts", sdkName := "Plain", maxMethodNameLength? := some 30 } := rfl
  have overriding : load bothSpellings mixedOverrides = .ok {
      documentFile := "d.ts", sdkName := "Chained", maxMethodNameLength? := some 30,
      chainMatch := .any } := rfl
  obtain ⟨same, follows⟩ := reload_eq_load loaded mixedOverrides
  exact ⟨_, _, loaded, overriding, same, follows _ overriding, rfl, rfl, rfl⟩

end Config

end ChainedSdk
