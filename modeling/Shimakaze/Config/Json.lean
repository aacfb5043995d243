import Shimakaze.Config.Programs
import Shimakaze.Lib.Registry
import Mathlib.Data.List.Nodup

/-!
# The Configuration File

`load_json` reads the members of a JSON object in two passes. The first, over all members,
assigns the common options, whose keys it normalises, and leaves out the members with a
normalised key of either program's own options. The second looks the own options of the
program up, by their exact names. A member that the first pass leaves out because of its
normalised key and the second does not find under its exact key is in neither.

The parser is `boost::json`; here an object is what it returns. Its values are as far apart as
the configuration tells them apart.

## Main results

* `Program.loadJson_eq_pass`: the members that are heeded, and in which order.
* `Program.same_loadAlike_iff`: when the result is what one pass over all members would give.
* `json_settings_heeded_iff`: **no setting is ignored, and every spelling does, if and only if
  what the last member of an option says is what its exact member says.**
-/

namespace Shimakaze

/-! ### Objects -/

/-- A `boost::json::value`: the kinds that a setting may have, and the others. -/
inductive JsonValue
  | string (value : String)
  | bool (value : Bool)
  | int64 (value : Int64)
  | uint64 (value : UInt64)
  | other
  deriving DecidableEq

/-- A `boost::json::object`: its members in the order of its iteration, no two of one key. -/
structure JsonObject where
  members : List (String × JsonValue)
  nodup : (members.map Prod.fst).Nodup

/-- `json_value_to_string`. -/
def jsonValueToString : JsonValue → Except String String
  | .string value => pure value
  | .bool value => pure (if value then "true" else "false")
  | .int64 value => pure (toString value.toInt)
  | .uint64 value => pure (toString value.toNat)
  | .other => throw "JSON config values must be string, bool, or integer"

/-- `boost::json::object::if_contains`. -/
def JsonObject.ifContains (object : JsonObject) (key : String) : Option JsonValue :=
  object.members.lookup key

theorem JsonObject.ifContains_eq_some_iff {object : JsonObject} {key : String}
    {value : JsonValue} :
    object.ifContains key = some value ↔ (key, value) ∈ object.members :=
  ⟨Registry.mem_of_lookup, Registry.lookup_of_mem object.nodup⟩

/-! ### Loading -/

/-- The normalised keys that `apply_json_common` passes over. -/
def sideMembers : List String :=
  ["localaddr", "remoteaddr", "conn", "autoexpire", "scavengettl", "listen", "target"]

namespace Program

variable {σ ο ς : Type}

/-- The members for the program's own options, in the order in which they are looked up. -/
structure Members (P : Program σ ο ς) where
  fields : List (String × ο)
  nodup : (fields.map Prod.fst).Nodup
  nodup_options : (fields.map Prod.snd).Nodup
  mem_sideMembers : ∀ field ∈ fields, field.1 ∈ sideMembers
  normalizeKey_eq : ∀ field ∈ fields, normalizeKey field.1 = field.1
  ne_common : ∀ field ∈ fields, ∀ c, field.2 ≠ P.commonOption c

variable {P : Program σ ο ς} (M : Members P)

/-- The keys of the two passes over a file. -/
def Members.keys : Keys P where
  skipped := sideMembers
  option key := M.fields.lookup key
  mem_skipped key _ h := M.mem_sideMembers (key, _) (Registry.mem_of_lookup h)
  ne_common key _ c h := M.ne_common (key, _) (Registry.mem_of_lookup h) c

/-- `apply_json_common`. -/
def applyJsonCommon (config : σ) (object : JsonObject) : Except String σ :=
  applyCommon M.keys jsonValueToString config object.members

/-- `if (auto* v = object.if_contains(key)) config.field = …;` -/
def assignMember (P : Program σ ο ς) (object : JsonObject) (config : σ) (field : String × ο) :
    Except String σ :=
  match object.ifContains field.1 with
  | some value => do P.assign config field.1 (← jsonValueToString value) field.2
  | none => pure config

/-- `load_json`, on what the parser returns. -/
def loadJson (config : σ) (object : JsonObject) : Except String σ := do
  let config ← applyJsonCommon M config object
  M.fields.foldlM (P.assignMember object) config

/-- The members under the exact names of the program's own options. -/
def exactMembers (object : JsonObject) : List (String × JsonValue) :=
  M.fields.filterMap fun field => (object.ifContains field.1).map fun value => (field.1, value)

/-- What a member means: its key is normalised, whatever option it names. -/
abbrev jsonReader : Settings.Reader P.toFields (String × JsonValue) String :=
  reader M.keys jsonValueToString

variable {M} {config : σ} {object : JsonObject}

theorem mem_exactMembers {member : String × JsonValue} :
    member ∈ exactMembers M object ↔
      member ∈ object.members ∧ ∃ field ∈ M.fields, field.1 = member.1 := by
  obtain ⟨key, value⟩ := member
  simp only [exactMembers, List.mem_filterMap, Option.map_eq_some_iff, Prod.mk.injEq,
    JsonObject.ifContains_eq_some_iff]
  constructor
  · rintro ⟨field, hfield, value, hmem, rfl, rfl⟩
    exact ⟨hmem, field, hfield, rfl⟩
  · rintro ⟨hmem, field, hfield, rfl⟩
    exact ⟨field, hfield, value, hmem, rfl, rfl⟩

/-- An exact member names the option of its field. -/
theorem option_of_field {field : String × ο} (hfield : field ∈ M.fields) :
    M.keys.option (normalizeKey field.1) = some field.2 := by
  rw [M.normalizeKey_eq field hfield]
  exact Registry.lookup_of_mem M.nodup hfield

theorem skips_of_field {field : String × ο} (hfield : field ∈ M.fields) (value : JsonValue) :
    M.keys.skips (field.1, value) = true := by
  rw [Keys.skips, List.contains_iff_mem, M.normalizeKey_eq field hfield]
  exact M.mem_sideMembers field hfield

theorem names_of_field {field : String × ο} (hfield : field ∈ M.fields) (value : JsonValue) :
    (jsonReader M).names (field.1, value) = some field.2 := by
  simp only [reader, skips_of_field hfield, if_true, option_of_field hfield]

/-- **The members that are heeded**: those of the common options, and then those under the
exact names of the others. -/
theorem loadJson_eq_pass : loadJson M config object = (jsonReader M).pass config
    ((object.members.filter fun member => !M.keys.skips member) ++ exactMembers M object) := by
  rw [loadJson, applyJsonCommon, applyCommon_eq_pass, Settings.Reader.pass_append]
  congr 1
  funext config
  refine Settings.Reader.foldlM_eq_pass (fun field hfield config => ?_) config
  rw [assignMember]
  cases hvalue : object.ifContains field.1 with
  | none => rfl
  | some value =>
      simp only [Option.map_some, Option.elim_some, Settings.Reader.step, reader,
        skips_of_field hfield, if_true, option_of_field hfield, assign]
      cases jsonValueToString value with
      | error message => rfl
      | ok text =>
          simp only [bind, Except.bind]
          cases P.parse field.1 text field.2 <;> rfl

/-! ### Which member decides -/

variable [DecidableEq ο]

omit [DecidableEq ο] in
/-- A member that names an own option, in whatever spelling. -/
theorem field_of_names {member : String × JsonValue} {option : ο}
    (hskip : M.keys.skips member = true) (h : (jsonReader M).names member = some option) :
    (normalizeKey member.1, option) ∈ M.fields := by
  simp only [reader, hskip, if_true] at h
  exact Registry.mem_of_lookup h

/-- Of the exact members only one names an option. -/
theorem last_exactMembers {field : String × ο} (hfield : field ∈ M.fields) :
    (jsonReader M).last field.2 (exactMembers M object) =
      (object.ifContains field.1).map fun value => (field.1, value) := by
  have hexact : ∀ member ∈ exactMembers M object, (jsonReader M).names member = some field.2 →
      object.ifContains field.1 = some member.2 ∧ member.1 = field.1 := by
    intro member hmember hname
    obtain ⟨hmem, field', hfield', hkey⟩ := mem_exactMembers.mp hmember
    have hname' := names_of_field hfield' member.2
    rw [hkey, hname] at hname'
    obtain rfl := List.inj_on_of_nodup_map M.nodup_options hfield hfield'
      (Option.some.inj hname')
    rw [JsonObject.ifContains_eq_some_iff, hkey]
    exact ⟨hmem, rfl⟩
  cases hvalue : object.ifContains field.1 with
  | none =>
      refine Settings.Reader.last_eq_none_iff.mpr fun member hmember hname => ?_
      rw [(hexact member hmember hname).1] at hvalue
      exact absurd hvalue (by simp)
  | some value =>
      have hmember : (field.1, value) ∈ exactMembers M object :=
        mem_exactMembers.mpr ⟨JsonObject.ifContains_eq_some_iff.mp hvalue, field, hfield, rfl⟩
      obtain ⟨member, hlast⟩ := Settings.Reader.exists_last hmember (names_of_field hfield value)
      obtain ⟨hmem, hname⟩ := Settings.Reader.mem_of_last hlast
      obtain ⟨hcontains, hkey⟩ := hexact member hmem hname
      rw [hvalue] at hcontains
      rw [hlast, Option.map_some, ← hkey, Option.some.inj hcontains]

/-- What the exact member of a field gives, and what the field held if there is none. -/
def exactValue (M : Members P) (config : σ) (object : JsonObject) (field : String × ο) : ς :=
  ((object.ifContains field.1).bind fun value => (jsonReader M).given (field.1, value)).getD
    (P.read config field.2)

/-- **An own option is decided by its exact member.** -/
theorem value_of_field {field : String × ο} (hfield : field ∈ M.fields) :
    (jsonReader M).value config ((object.members.filter fun member => !M.keys.skips member) ++
      exactMembers M object) field.2 = exactValue M config object field := by
  rw [Settings.Reader.value, Settings.Reader.last_append_of_not_named_left,
    last_exactMembers hfield, Option.bind_map]
  · rfl
  · intro member hmember hname
    have hskip := skips_eq_of_names hname (names_of_field hfield .other)
    rw [skips_of_field hfield] at hskip
    simpa [hskip] using (List.mem_filter.mp hmember).2

/-- **A common option is decided by its last member**, in whatever spelling. -/
theorem value_of_common {option : ο} (h : ∀ field ∈ M.fields, field.2 ≠ option) :
    (jsonReader M).value config ((object.members.filter fun member => !M.keys.skips member) ++
      exactMembers M object) option = (jsonReader M).value config object.members option := by
  refine Settings.Reader.value_congr ?_
  rw [Settings.Reader.last_append_of_not_named, Settings.Reader.last_filter]
  · intro member _ hname
    cases hskip : M.keys.skips member with
    | true => exact absurd rfl (h _ (field_of_names hskip hname))
    | false => rfl
  · intro member hmember hname
    obtain ⟨-, field, hfield, hkey⟩ := mem_exactMembers.mp hmember
    rw [show member = (field.1, member.2) by rw [hkey], names_of_field hfield] at hname
    exact h field hfield (Option.some.inj hname)

/-! ### Spellings -/

/-- One pass over all members, which treats the spellings of an own option as those of a
common one. -/
def loadAlike (M : Members P) (config : σ) (object : JsonObject) : Except String σ :=
  (jsonReader M).pass config object.members

omit [DecidableEq ο] in
/-- No member is ignored: of every option that is named, the field holds what some member that
names it gives. -/
def NoneIgnored (M : Members P) (config : σ) (object : JsonObject) : Prop :=
  ∀ member ∈ object.members, ∀ option, (jsonReader M).names member = some option →
    ∀ result, loadJson M config object = .ok result →
      ∃ member' ∈ object.members, (jsonReader M).names member' = some option ∧
        (jsonReader M).given member' = some (P.read result option)

/-- Either a member that is heeded is invalid, or all members are valid and of every own
option the last member, in whatever spelling, gives what the exact member gives, or what the
field held if there is no exact one. -/
def SpelledAlike (M : Members P) (config : σ) (object : JsonObject) : Prop :=
  (∃ member ∈ object.members, ¬ (jsonReader M).Valid member ∧
      (M.keys.skips member = false ∨ ∃ field ∈ M.fields, field.1 = member.1)) ∨
    ((∀ member ∈ object.members, (jsonReader M).Valid member) ∧
      ∀ field ∈ M.fields, ∀ member, (jsonReader M).last field.2 object.members = some member →
        (jsonReader M).given member = some (exactValue M config object field))

/-- **When loading is one pass over all members**, but for the text of an error. -/
theorem same_loadAlike_iff :
    Settings.Reader.Same P.toFields (loadJson M config object) (loadAlike M config object) ↔
      SpelledAlike M config object := by
  have hsub : ∀ member ∈ (object.members.filter fun member => !M.keys.skips member) ++
      exactMembers M object, member ∈ object.members := by
    intro member hmember
    rcases List.mem_append.mp hmember with h | h
    · exact (List.mem_filter.mp h).1
    · exact (mem_exactMembers.mp h).1
  rw [loadJson_eq_pass, loadAlike, Settings.Reader.same_iff hsub, SpelledAlike]
  refine or_congr ?_ (and_congr_right fun hvalid => ?_)
  · constructor
    · rintro ⟨member, hmember, hinvalid⟩
      refine ⟨member, hsub member hmember, hinvalid, ?_⟩
      rcases List.mem_append.mp hmember with h | h
      · exact Or.inl (by simpa using (List.mem_filter.mp h).2)
      · exact Or.inr (mem_exactMembers.mp h).2
    · rintro ⟨member, hmember, hinvalid, h⟩
      refine ⟨member, List.mem_append.mpr ?_, hinvalid⟩
      rcases h with hskip | hexact
      · exact Or.inl (List.mem_filter.mpr ⟨hmember, by rw [hskip, Bool.not_false]⟩)
      · exact Or.inr (mem_exactMembers.mpr ⟨hmember, hexact⟩)
  · constructor
    · intro h field hfield member hlast
      obtain ⟨hmem, hname⟩ := Settings.Reader.mem_of_last hlast
      obtain ⟨setting, hgiven, -⟩ := (hvalid member hmem).exists_given hname
      rw [← value_of_field hfield, h, Settings.Reader.value_of_last hlast hgiven, hgiven]
    · intro h option
      by_cases hoption : ∀ field ∈ M.fields, field.2 ≠ option
      · exact value_of_common hoption
      · obtain ⟨field, hfield, rfl⟩ : ∃ field ∈ M.fields, field.2 = option := by
          simpa using hoption
        rw [value_of_field hfield]
        cases hlast : (jsonReader M).last field.2 object.members with
        | some member =>
            exact (Settings.Reader.value_of_last hlast (h field hfield member hlast)).symm
        | none =>
            rw [Settings.Reader.value_of_last_eq_none hlast, exactValue]
            cases hvalue : object.ifContains field.1 with
            | none => rfl
            | some value =>
                exact absurd (names_of_field hfield value)
                  (Settings.Reader.last_eq_none_iff.mp hlast _
                    (JsonObject.ifContains_eq_some_iff.mp hvalue))

/-- A pass over all members ignores none. -/
theorem noneIgnored_of_same (h : Settings.Reader.Same P.toFields (loadJson M config object)
    (loadAlike M config object)) : NoneIgnored M config object := by
  intro member hmember option hname result hresult
  cases halike : loadAlike M config object with
  | error message => simp [hresult, halike, Settings.Reader.Same] at h
  | ok result' =>
      rw [hresult, halike] at h
      obtain ⟨member', hlast⟩ := Settings.Reader.exists_last hmember hname
      obtain ⟨hmem, hname'⟩ := Settings.Reader.mem_of_last hlast
      obtain ⟨setting, hgiven, -⟩ :=
        (Settings.Reader.pass_ok_iff.mp ⟨result', halike⟩ member' hmem).exists_given hname'
      refine ⟨member', hmem, hname', ?_⟩
      rw [h option, Settings.Reader.read_of_pass halike,
        Settings.Reader.value_of_last hlast hgiven, hgiven]

end Program

/-! ### The two programs -/

/-- The look-ups of the client's `load_json`. -/
def clientMembers : Program.Members client where
  fields := [("localaddr", .localaddr), ("remoteaddr", .remoteaddr), ("conn", .conn),
    ("autoexpire", .autoexpire), ("scavengettl", .scavengettl)]
  nodup := by decide
  nodup_options := by decide
  mem_sideMembers := by decide
  normalizeKey_eq := by decide +kernel
  ne_common field hfield c := by
    simp only [List.mem_cons, List.not_mem_nil, or_false] at hfield
    rcases hfield with rfl | rfl | rfl | rfl | rfl <;> exact nofun

/-- The look-ups of the server's `load_json`. -/
def serverMembers : Program.Members server where
  fields := [("listen", .listen), ("target", .target)]
  nodup := by decide
  nodup_options := by decide
  mem_sideMembers := by decide
  normalizeKey_eq := by decide +kernel
  ne_common field hfield c := by
    simp only [List.mem_cons, List.not_mem_nil, or_false] at hfield
    rcases hfield with rfl | rfl <;> exact nofun

/-- `load_json` of the client. -/
def loadClientJson (config : ClientConfig) (object : JsonObject) : Except String ClientConfig :=
  Program.loadJson clientMembers config object

/-- `load_json` of the server. -/
def loadServerJson (config : ServerConfig) (object : JsonObject) : Except String ServerConfig :=
  Program.loadJson serverMembers config object

/-- **No setting of a file is ignored, and every spelling of an own option does as for a common
one, if and only if the last member of each own option says what its exact member says**, or
the field held before, or a member that is heeded is invalid anyway. -/
theorem json_settings_heeded_iff (object : JsonObject) :
    (∀ config : ClientConfig,
      (Program.NoneIgnored clientMembers config object ∧
        Settings.Reader.Same client.toFields (loadClientJson config object)
          (Program.loadAlike clientMembers config object)) ↔
        Program.SpelledAlike clientMembers config object) ∧
    ∀ config : ServerConfig,
      (Program.NoneIgnored serverMembers config object ∧
        Settings.Reader.Same server.toFields (loadServerJson config object)
          (Program.loadAlike serverMembers config object)) ↔
        Program.SpelledAlike serverMembers config object := by
  constructor
  · intro config
    rw [← Program.same_loadAlike_iff]
    exact ⟨fun h => h.2, fun h => ⟨Program.noneIgnored_of_same h, h⟩⟩
  · intro config
    rw [← Program.same_loadAlike_iff]
    exact ⟨fun h => h.2, fun h => ⟨Program.noneIgnored_of_same h, h⟩⟩

/-- A capital letter: the server goes on to listen where it would have without the file. -/
theorem listen_ignored :
    (loadServerJson {} ⟨[("Listen", .string ":1")], List.nodup_singleton _⟩).toOption.map
        (·.listen) = some ":29900" ∧
      ¬ Program.NoneIgnored serverMembers {}
        ⟨[("Listen", .string ":1")], List.nodup_singleton _⟩ := by
  have hlisten : (loadServerJson {}
      ⟨[("Listen", .string ":1")], List.nodup_singleton _⟩).toOption.map (·.listen) =
        some ":29900" := by decide +kernel
  refine ⟨hlisten, fun h => ?_⟩
  obtain ⟨result, hresult, hfield⟩ := Option.map_eq_some_iff.mp hlisten
  obtain ⟨member, hmember, -, hgiven⟩ := h ("Listen", .string ":1") (by simp) .listen
    (by decide +kernel) result (ok_of_toOption hresult)
  rw [List.mem_singleton.mp hmember] at hgiven
  have hone : (Program.jsonReader serverMembers).given ("Listen", .string ":1") =
      some (.listen ":1") := by decide +kernel
  rw [hone] at hgiven
  have hread : server.read result .listen = .listen ":29900" := congrArg ServerSetting.listen hfield
  rw [hread] at hgiven
  exact absurd hgiven (by decide)

end Shimakaze
