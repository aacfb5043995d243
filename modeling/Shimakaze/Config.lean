import Shimakaze.Bytes

/-!
# The Tunnel Configuration

`BaseConfig` is the settings record both programs share, with the defaults of
`config.hpp`, and `validateCommonConfig` is the check both parsers end with: a
configuration is *accepted* when it returns without an error. Settings are C++ `int`s and
are kept as `Int32`; a computation that the code carries out in a wider type reads them
through `toInt`.

## Main results

* `BaseConfig.accepted_iff`: the settings the validation lets through, one condition for
  each check of the code.
* `BaseConfig.updateThreshold_le`: half the stream buffer never exceeds the window that is
  advertised for it, for any value of the setting.
-/

namespace Shimakaze

/-- `BaseConfig`: the settings shared by client and server. -/
structure BaseConfig where
  key : Bytes := "it's a secrect".toUTF8.data.toList
  crypt : String := "aes"
  mode : String := "fast"
  mtu : Int32 := 1350
  ratelimit : Int32 := 0
  sndwnd : Int32 := 128
  rcvwnd : Int32 := 512
  datashard : Int32 := 10
  parityshard : Int32 := 3
  dscp : Int32 := 0
  nocomp : Bool := false
  acknodelay : Bool := false
  nodelay : Int32 := 0
  interval : Int32 := 50
  resend : Int32 := 0
  nc : Int32 := 0
  sockbuf : Int32 := 4 * 1024 * 1024
  smuxver : Int32 := 2
  smuxbuf : Int32 := 4 * 1024 * 1024
  framesize : Int32 := 8192
  streambuf : Int32 := 2 * 1024 * 1024
  keepalive : Int32 := 10
  closewait : Int32 := 0
  snmplog : String := ""
  snmpperiod : Int32 := 60
  log : String := ""
  loglevel : String := "info"
  quiet : Bool := false
  tcp : Bool := false
  pprof : Bool := false
  qpp : Bool := false
  qppCount : Int32 := 61

/-- The level names `Logger::set_level` knows, after lower-casing and dropping dashes and
underscores. -/
def logLevels : List String :=
  ["trace", "debug", "info", "warn", "warning", "error", "off", "none", "silent"]

/-- `normalize_key`: drop dashes and underscores and lower-case the rest. -/
def normalizeKey (key : String) : String :=
  String.ofList ((key.toList.filter fun ch => ch != '-' && ch != '_').map Char.toLower)

/-- `Logger::set_level`, reduced to whether it throws. -/
def setLevel (level : String) : Except String Unit :=
  if logLevels.contains (normalizeKey level) then pure ()
  else throw ("invalid loglevel: " ++ level)

/-- One guard of the validation: `if (condition) { throw std::runtime_error(message); }`. -/
def throwIf (condition : Prop) [Decidable condition] (message : String) :
    Except String Unit :=
  if condition then throw message else pure ()

/-- `validate_common_config`: the checks in the order the code makes them. -/
def validateCommonConfig (config : BaseConfig) : Except String Unit := do
  throwIf (config.mtu < 576 ∨ config.mtu > 65535) "mtu must be between 576 and 65535"
  throwIf (config.interval ≤ 0) "interval must be greater than 0"
  throwIf (config.sndwnd ≤ 0 ∨ config.rcvwnd ≤ 0) "sndwnd and rcvwnd must be greater than 0"
  throwIf (config.datashard < 0 ∨ config.parityshard < 0 ∨
      config.datashard + config.parityshard > 256)
    "datashard and parityshard must be non-negative and sum to at most 256"
  throwIf (config.smuxver > 2) ("unsupported smux version: " ++ toString config.smuxver)
  throwIf (config.smuxbuf ≤ 0 ∨ config.framesize ≤ 0 ∨ config.streambuf ≤ 0 ∨
      config.keepalive ≤ 0)
    "smuxbuf, framesize, streambuf, and keepalive must be greater than 0"
  throwIf (config.qpp ∧ (config.qppCount ≤ 0 ∨ config.qppCount > 65535))
    "QPPCount must be in range 1..65535 when QPP is enabled"
  setLevel config.loglevel

theorem ok_of_toOption {ε α : Type*} {result : Except ε α} {a : α}
    (h : result.toOption = some a) : result = .ok a := by
  cases result with
  | error e => cases h
  | ok b => exact congrArg Except.ok (Option.some.inj h)

theorem map_eq_ok_iff {α β ε : Type} {f : α → β} {x : Except ε α} {b : β} :
    f <$> x = .ok b ↔ ∃ a, x = .ok a ∧ f a = b := by
  cases x with
  | error message => simp [Functor.map, Except.map]
  | ok a => simp [Functor.map, Except.map]

theorem bind_eq_ok_iff {α β ε : Type} {f : α → Except ε β} {x : Except ε α} {b : β} :
    x >>= f = .ok b ↔ ∃ a, x = .ok a ∧ f a = .ok b := by
  cases x with
  | error message => simp [bind, Except.bind]
  | ok a => simp [bind, Except.bind]

/-- A guard passes exactly when its condition is false. -/
theorem throwIf_eq_ok_iff {p : Prop} [Decidable p] {message : String} {passed : Unit} :
    throwIf p message = .ok passed ↔ ¬ p := by
  by_cases hp : p
  · simp [throwIf, hp, throw, throwThe, MonadExceptOf.throw]
  · simp [throwIf, hp, pure, Except.pure]

/-- A guard and what follows it pass together. -/
theorem throwIf_bind_eq_ok {p : Prop} [Decidable p] {message : String}
    {rest : Except String Unit} :
    (throwIf p message >>= fun _ => rest) = .ok () ↔ ¬ p ∧ rest = .ok () := by
  simp only [bind_eq_ok_iff, throwIf_eq_ok_iff, exists_const]

namespace BaseConfig

/-- An accepted configuration: one that the validation lets through. -/
def Accepted (config : BaseConfig) : Prop := validateCommonConfig config = .ok ()

instance (config : BaseConfig) : Decidable config.Accepted :=
  inferInstanceAs (Decidable (validateCommonConfig config = .ok ()))

/-- A configuration is accepted exactly when it passes every check. -/
theorem accepted_iff (config : BaseConfig) : config.Accepted ↔
    ¬ (config.mtu < 576 ∨ config.mtu > 65535) ∧ ¬ config.interval ≤ 0 ∧
    ¬ (config.sndwnd ≤ 0 ∨ config.rcvwnd ≤ 0) ∧
    ¬ (config.datashard < 0 ∨ config.parityshard < 0 ∨
        config.datashard + config.parityshard > 256) ∧
    ¬ config.smuxver > 2 ∧
    ¬ (config.smuxbuf ≤ 0 ∨ config.framesize ≤ 0 ∨ config.streambuf ≤ 0 ∨
        config.keepalive ≤ 0) ∧
    ¬ (config.qpp ∧ (config.qppCount ≤ 0 ∨ config.qppCount > 65535)) ∧
    setLevel config.loglevel = .ok () := by
  simp only [Accepted, validateCommonConfig, throwIf_bind_eq_ok]

/-- What the validation says about the mtu, as a number. -/
theorem Accepted.mtu_range {config : BaseConfig} (h : config.Accepted) :
    576 ≤ config.mtu.toInt ∧ config.mtu.toInt ≤ 65535 := by
  have hrange := ((accepted_iff config).mp h).1
  rw [Int32.lt_iff_toInt_lt, gt_iff_lt, Int32.lt_iff_toInt_lt] at hrange
  have hlow : (576 : Int32).toInt = 576 := rfl
  have hhigh : (65535 : Int32).toInt = 65535 := rfl
  omega

/-- `session->version() == 2`: the session speaks the protocol with window updates. -/
def flowControlled (config : BaseConfig) : Bool := config.smuxver == 2

/-- `std::max(1, session->frame_size())`: the largest payload one flush puts in a frame. -/
def maxFrame (config : BaseConfig) : ℕ := (max 1 config.framesize.toInt).toNat

/-- `std::max(1, config_.smuxbuf)`: the capacity of the session's receive buffer. -/
def smuxCapacity (config : BaseConfig) : ℕ := (max 1 config.smuxbuf.toInt).toNat

/-- `std::max(1, session->stream_buffer())`: the window a stream advertises. -/
def advertisedWindow (config : BaseConfig) : ℕ := (max 1 config.streambuf.toInt).toNat

/-- `std::max(1, session->stream_buffer() / 2)`: the consumption after which a stream
sends an update. The division is C++'s, which rounds towards zero. -/
def updateThreshold (config : BaseConfig) : ℕ := (max 1 (config.streambuf.toInt.tdiv 2)).toNat

theorem maxFrame_pos (config : BaseConfig) : 0 < config.maxFrame := by
  simp only [maxFrame]; omega

theorem updateThreshold_pos (config : BaseConfig) : 0 < config.updateThreshold := by
  simp only [updateThreshold]; omega

/-- An `int` never reaches `2 ^ 31`. -/
theorem advertisedWindow_lt (config : BaseConfig) : config.advertisedWindow < 2 ^ 31 := by
  have h := config.streambuf.toInt_lt
  simp only [advertisedWindow]; omega

/-- The update threshold never exceeds the advertised window: this is what rules out a
window that is used up before the next update is due. -/
theorem updateThreshold_le (config : BaseConfig) :
    config.updateThreshold ≤ config.advertisedWindow := by
  have h : config.streambuf.toInt.tdiv 2 ≤ max 0 config.streambuf.toInt := by
    rcases Int.le_total 0 config.streambuf.toInt with h0 | h0
    · rw [Int.tdiv_eq_ediv_of_nonneg h0]; omega
    · have : config.streambuf.toInt.tdiv 2 ≤ 0 := by
        rw [← Int.neg_neg config.streambuf.toInt, Int.neg_tdiv,
          Int.tdiv_eq_ediv_of_nonneg (by omega)]
        omega
      omega
  simp only [updateThreshold, advertisedWindow]; omega

end BaseConfig

end Shimakaze
