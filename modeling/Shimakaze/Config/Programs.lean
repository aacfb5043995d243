import Shimakaze.Config.Options
import Shimakaze.Lib.Settings

/-!
# The Configurations of the Two Programs

Client and server have options of their own beside those of `BaseConfig`. What the two
configurations share is a `Program`, over which the templates of the source are generic.

Both the command line and a file are read in two passes, one for the common options and one
for the others, and the first passes over the keys of the second. `Program.reader` says what an
entry of either source means for the two passes together.

## Main results

* `client`, `server`: the options of either program keep apart.
* `Program.applyCommon_eq_pass`: the first pass of either source.
* `Program.skips_eq_of_names`: the entries of one option are all heeded by the same pass, so two
  passes do not change which of them is the last.
-/

namespace Shimakaze

/-! ### The two programs -/

/-- `ClientConfig`, with what its constructor sets. -/
structure ClientConfig extends BaseConfig where
  localaddr : String := ":12948"
  remoteaddr : String := "vps:29900"
  conn : Int32 := 1
  autoexpire : Int32 := 0
  scavengettl : Int32 := 600
  sndwnd := 128
  rcvwnd := 512
  closewait := 0

/-- `ServerConfig`, with what its constructor sets. -/
structure ServerConfig extends BaseConfig where
  listen : String := ":29900"
  target : String := "127.0.0.1:12948"
  sndwnd := 1024
  rcvwnd := 1024
  closewait := 30

/-- The options of the client. -/
inductive ClientOption
  | common (option : CommonOption) | localaddr | remoteaddr | conn | autoexpire | scavengettl
  deriving DecidableEq, Repr

/-- A value for an option of the client. -/
inductive ClientSetting
  | common (setting : CommonSetting) | localaddr (value : String) | remoteaddr (value : String)
  | conn (value : Int32) | autoexpire (value : Int32) | scavengettl (value : Int32)
  deriving DecidableEq, Repr

/-- The options of the server. -/
inductive ServerOption
  | common (option : CommonOption) | listen | target
  deriving DecidableEq, Repr

/-- A value for an option of the server. -/
inductive ServerSetting
  | common (setting : CommonSetting) | listen (value : String) | target (value : String)
  deriving DecidableEq, Repr

/-- A program's configuration: the options of `BaseConfig` and its own. -/
structure Program (σ ο ς : Type) extends Settings.Fields σ ο ς where
  common : CommonSetting → ς
  commonOption : CommonOption → ο
  option_common : ∀ setting, option (common setting) = commonOption setting.option
  parse : String → String → ο → Except String ς
  option_of_parse : ∀ {rawKey value o setting}, parse rawKey value o = .ok setting →
    option setting = o

/-- The right-hand sides of the client's assignments. -/
def ClientOption.parse (rawKey value : String) : ClientOption → Except String ClientSetting
  | .common option => .common <$> option.parse rawKey value
  | .localaddr => pure (.localaddr value)
  | .remoteaddr => pure (.remoteaddr value)
  | .conn => .conn <$> parseInt rawKey value
  | .autoexpire => .autoexpire <$> parseInt rawKey value
  | .scavengettl => .scavengettl <$> parseInt rawKey value

/-- The right-hand sides of the server's assignments. -/
def ServerOption.parse (rawKey value : String) : ServerOption → Except String ServerSetting
  | .common option => .common <$> option.parse rawKey value
  | .listen => pure (.listen value)
  | .target => pure (.target value)

/-- The client. -/
def client : Program ClientConfig ClientOption ClientSetting where
  option
    | .common setting => .common setting.option
    | .localaddr _ => .localaddr
    | .remoteaddr _ => .remoteaddr
    | .conn _ => .conn
    | .autoexpire _ => .autoexpire
    | .scavengettl _ => .scavengettl
  write config
    | .common setting => { config with toBaseConfig := config.toBaseConfig.write setting }
    | .localaddr value => { config with localaddr := value }
    | .remoteaddr value => { config with remoteaddr := value }
    | .conn value => { config with conn := value }
    | .autoexpire value => { config with autoexpire := value }
    | .scavengettl value => { config with scavengettl := value }
  read config
    | .common option => .common (config.toBaseConfig.read option)
    | .localaddr => .localaddr config.localaddr
    | .remoteaddr => .remoteaddr config.remoteaddr
    | .conn => .conn config.conn
    | .autoexpire => .autoexpire config.autoexpire
    | .scavengettl => .scavengettl config.scavengettl
  read_write_self config setting := by
    cases setting with
    | common setting => exact congrArg _ (config.toBaseConfig.read_write_self setting)
    | _ => rfl
  read_write_of_ne config setting o h := by
    cases setting <;> cases o <;> first
      | rfl
      | exact absurd rfl h
      | exact congrArg _ (config.toBaseConfig.read_write_of_ne _ _ fun ho =>
          h (congrArg ClientOption.common ho))
  common := .common
  commonOption := .common
  option_common _ := rfl
  parse rawKey value option := option.parse rawKey value
  option_of_parse {rawKey value o setting} h := by
    cases o <;>
      simp only [ClientOption.parse, map_eq_ok_iff, pure, Except.pure, Except.ok.injEq] at h
    case common o =>
      obtain ⟨setting, hsetting, rfl⟩ := h
      exact congrArg ClientOption.common (CommonOption.option_of_parse hsetting)
    all_goals first | (subst h; rfl) | (obtain ⟨_, -, rfl⟩ := h; rfl)

/-- The server. -/
def server : Program ServerConfig ServerOption ServerSetting where
  option
    | .common setting => .common setting.option
    | .listen _ => .listen
    | .target _ => .target
  write config
    | .common setting => { config with toBaseConfig := config.toBaseConfig.write setting }
    | .listen value => { config with listen := value }
    | .target value => { config with target := value }
  read config
    | .common option => .common (config.toBaseConfig.read option)
    | .listen => .listen config.listen
    | .target => .target config.target
  read_write_self config setting := by
    cases setting with
    | common setting => exact congrArg _ (config.toBaseConfig.read_write_self setting)
    | _ => rfl
  read_write_of_ne config setting o h := by
    cases setting <;> cases o <;> first
      | rfl
      | exact absurd rfl h
      | exact congrArg _ (config.toBaseConfig.read_write_of_ne _ _ fun ho =>
          h (congrArg ServerOption.common ho))
  common := .common
  commonOption := .common
  option_common _ := rfl
  parse rawKey value option := option.parse rawKey value
  option_of_parse {rawKey value o setting} h := by
    cases o <;>
      simp only [ServerOption.parse, map_eq_ok_iff, pure, Except.pure, Except.ok.injEq] at h
    case common o =>
      obtain ⟨setting, hsetting, rfl⟩ := h
      exact congrArg ServerOption.common (CommonOption.option_of_parse hsetting)
    all_goals exact h ▸ rfl

/-! ### Entries -/

namespace Program

variable {σ ο ς : Type} (P : Program σ ο ς)

/-- `assign_common`. -/
def assignCommon (config : σ) (rawKey value : String) : Except String σ :=
  match CommonOption.ofKey (normalizeKey rawKey) with
  | some option =>
      (fun setting => P.write config (P.common setting)) <$> option.parse rawKey value
  | none => throw ("unknown common option: " ++ rawKey)

/-- An assignment to the field of one of the program's own options. -/
def assign (config : σ) (rawKey value : String) (option : ο) : Except String σ :=
  P.write config <$> P.parse rawKey value option

/-- The normalised keys that the first pass leaves to the second, and the option of this
program, if any, that the second pass takes one of them for. -/
structure Keys where
  skipped : List String
  option : String → Option ο
  mem_skipped : ∀ key o, option key = some o → key ∈ skipped
  ne_common : ∀ key o c, option key = some o → o ≠ P.commonOption c

variable {P} (K : Keys P) {ν : Type} (text : ν → Except String String)

/-- Whether the first pass leaves an entry out. -/
def Keys.skips (entry : String × ν) : Bool := K.skipped.contains (normalizeKey entry.1)

/-- `apply_cli_common` and `apply_json_common`, on the entries in the order of the
iteration. -/
def applyCommon (config : σ) (entries : List (String × ν)) : Except String σ :=
  entries.foldlM
    (fun config entry =>
      if K.skips entry then pure config
      else do P.assignCommon config entry.1 (← text entry.2))
    config

/-- What an entry means, whichever pass heeds it. -/
def reader : Settings.Reader P.toFields (String × ν) String where
  names entry :=
    if K.skips entry then K.option (normalizeKey entry.1)
    else (CommonOption.ofKey (normalizeKey entry.1)).map P.commonOption
  parse entry :=
    if K.skips entry then
      match K.option (normalizeKey entry.1) with
      | some option => do return some (← P.parse entry.1 (← text entry.2) option)
      | none => pure none
    else do
      let value ← text entry.2
      match CommonOption.ofKey (normalizeKey entry.1) with
      | some option => return some (P.common (← option.parse entry.1 value))
      | none => throw ("unknown common option: " ++ entry.1)
  names_of_parse entry setting h := by
    cases hskip : K.skips entry with
    | true =>
        rw [hskip] at h
        cases hoption : K.option (normalizeKey entry.1) with
        | none =>
            rw [hoption] at h
            obtain rfl : none = setting := by simpa [pure, Except.pure] using h
            rfl
        | some o =>
            simp only [hoption, if_true, bind_eq_ok_iff, pure, Except.pure, Except.ok.injEq] at h
            obtain ⟨value, -, parsed, hparsed, rfl⟩ := h
            exact congrArg some (P.option_of_parse hparsed).symm
    | false =>
        rw [hskip] at h
        cases hoption : CommonOption.ofKey (normalizeKey entry.1) with
        | none => simp [hoption, bind_eq_ok_iff, throw, throwThe, MonadExceptOf.throw] at h
        | some o =>
            simp only [hoption, Bool.false_eq_true, if_false, bind_eq_ok_iff, pure, Except.pure,
              Except.ok.injEq] at h
            obtain ⟨value, -, parsed, hparsed, rfl⟩ := h
            rw [← CommonOption.option_of_parse hparsed]
            exact congrArg some (P.option_common parsed).symm

variable {K text}

/-- **The first pass** heeds the entries that it does not leave out. -/
theorem applyCommon_eq_pass (config : σ) (entries : List (String × ν)) :
    applyCommon K text config entries =
      (reader K text).pass config (entries.filter fun entry => !K.skips entry) := by
  rw [applyCommon, Settings.Reader.pass, List.foldlM_filter]
  congr 1
  funext config entry
  cases hskip : K.skips entry with
  | true => rfl
  | false =>
      simp only [Bool.false_eq_true, if_false, Bool.not_false, if_true, Settings.Reader.step,
        reader, hskip, assignCommon]
      cases text entry.2 with
      | error message => rfl
      | ok value =>
          cases CommonOption.ofKey (normalizeKey entry.1) with
          | none => rfl
          | some o => simp only [bind, Except.bind]; cases o.parse entry.1 value <;> rfl

/-- An option is heeded by one of the passes only. -/
theorem skips_eq_of_names {entry entry' : String × ν} {o : ο}
    (h : (reader K text).names entry = some o) (h' : (reader K text).names entry' = some o) :
    K.skips entry = K.skips entry' := by
  cases hskip : K.skips entry <;> cases hskip' : K.skips entry' <;>
    simp only [reader, hskip, hskip', Bool.false_eq_true, if_false, if_true,
      Option.map_eq_some_iff] at h h' ⊢
  case false.true =>
    obtain ⟨c, -, hc⟩ := h
    exact absurd hc.symm (K.ne_common _ _ c h')
  case true.false =>
    obtain ⟨c, -, hc⟩ := h'
    exact absurd hc.symm (K.ne_common _ _ c h)

end Program

end Shimakaze
