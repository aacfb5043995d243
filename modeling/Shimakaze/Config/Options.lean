import Shimakaze.Config

/-!
# Options and Their Settings

`assign_common` and the code around it know an option by its name, parse the text given for it
and store the result in a field. Here an option is a value of `CommonOption`, what may be
stored in it is a `CommonSetting`, and the functions of the source that look like chains of
comparisons are tables. Text comes from the command line and from files, so a string is a
sequence of bytes, one a character.

## Main results

* `BaseConfig.read_write_of_ne`: an assignment changes the field of its option only.
* `CommonOption.option_of_parse`: an option's text gives a setting of this option.
-/

namespace Shimakaze

/-! ### Text -/

/-- The bytes of a `std::string`. -/
def toBytes (text : String) : Bytes := text.toList.map fun ch => UInt8.ofNat ch.toNat

/-- `parse_bool`. -/
def parseBool (value : String) : Except String Bool :=
  let normalized := normalizeKey value
  if ["1", "true", "yes", "on"].contains normalized then pure true
  else if ["0", "false", "no", "off"].contains normalized then pure false
  else throw ("invalid boolean value: " ++ value)

/-- `std::isspace` in the C locale: the blank and the characters from tab to carriage
return. -/
def isSpace (ch : Char) : Bool := ch = ' ' || ('\t' ≤ ch && ch ≤ '\r')

/-- An optional sign: whether it is a minus, and the rest of the text. -/
def readSign : List Char → Bool × List Char
  | '-' :: text => (true, text)
  | '+' :: text => (false, text)
  | text => (false, text)

/-- `std::stoi` in base ten: the number at the start of the text, after white space and with
an optional sign, and the text after it. It throws when there is none or an `int` cannot hold
it. -/
def stoi (text : List Char) : Option (Int32 × List Char) :=
  let (negative, unsigned) := readSign (text.dropWhile isSpace)
  let digits := unsigned.takeWhile Char.isDigit
  let magnitude : ℤ := Nat.ofDigitChars 10 digits 0
  let result := if negative then -magnitude else magnitude
  if digits = [] ∨ result < -2 ^ 31 ∨ 2 ^ 31 ≤ result then none
  else some (Int32.ofInt result, unsigned.dropWhile Char.isDigit)

/-- `parse_int`: the text is one number and nothing else. -/
def parseInt (key value : String) : Except String Int32 :=
  match stoi value.toList with
  | some (result, []) => pure result
  | _ => throw ("invalid integer for " ++ key ++ ": " ++ value)

/-! ### The options of both programs -/

/-- The options `assign_common` knows, one for each field of `BaseConfig`. -/
inductive CommonOption
  | key | crypt | mode | mtu | ratelimit | sndwnd | rcvwnd | datashard | parityshard | dscp
  | nocomp | acknodelay | nodelay | interval | resend | nc | sockbuf | smuxver | smuxbuf
  | framesize | streambuf | keepalive | closewait | snmplog | snmpperiod | log | loglevel
  | quiet | tcp | pprof | qpp | qppCount
  deriving DecidableEq, Repr

/-- A value for one of the options. -/
inductive CommonSetting
  | key (value : Bytes) | crypt (value : String) | mode (value : String) | mtu (value : Int32)
  | ratelimit (value : Int32) | sndwnd (value : Int32) | rcvwnd (value : Int32)
  | datashard (value : Int32) | parityshard (value : Int32) | dscp (value : Int32)
  | nocomp (value : Bool) | acknodelay (value : Bool) | nodelay (value : Int32)
  | interval (value : Int32) | resend (value : Int32) | nc (value : Int32)
  | sockbuf (value : Int32) | smuxver (value : Int32) | smuxbuf (value : Int32)
  | framesize (value : Int32) | streambuf (value : Int32) | keepalive (value : Int32)
  | closewait (value : Int32) | snmplog (value : String) | snmpperiod (value : Int32)
  | log (value : String) | loglevel (value : String) | quiet (value : Bool)
  | tcp (value : Bool) | pprof (value : Bool) | qpp (value : Bool) | qppCount (value : Int32)
  deriving DecidableEq, Repr

/-- The comparisons of `assign_common`: the option a normalised key stands for. -/
def CommonOption.ofKey : String → Option CommonOption
  | "key" => some .key
  | "crypt" => some .crypt
  | "mode" => some .mode
  | "mtu" => some .mtu
  | "ratelimit" => some .ratelimit
  | "sndwnd" => some .sndwnd
  | "rcvwnd" => some .rcvwnd
  | "datashard" | "ds" => some .datashard
  | "parityshard" | "ps" => some .parityshard
  | "dscp" => some .dscp
  | "nocomp" => some .nocomp
  | "acknodelay" => some .acknodelay
  | "nodelay" => some .nodelay
  | "interval" => some .interval
  | "resend" => some .resend
  | "nc" => some .nc
  | "sockbuf" => some .sockbuf
  | "smuxver" => some .smuxver
  | "smuxbuf" => some .smuxbuf
  | "framesize" => some .framesize
  | "streambuf" => some .streambuf
  | "keepalive" => some .keepalive
  | "closewait" => some .closewait
  | "snmplog" => some .snmplog
  | "snmpperiod" => some .snmpperiod
  | "log" => some .log
  | "loglevel" => some .loglevel
  | "quiet" => some .quiet
  | "tcp" => some .tcp
  | "pprof" => some .pprof
  | "qpp" => some .qpp
  | "qppcount" => some .qppCount
  | _ => none

/-- The right-hand sides of the assignments in `assign_common`. -/
def CommonOption.parse (rawKey value : String) : CommonOption → Except String CommonSetting
  | .key => pure (.key (toBytes value))
  | .crypt => pure (.crypt value)
  | .mode => pure (.mode value)
  | .mtu => .mtu <$> parseInt rawKey value
  | .ratelimit => .ratelimit <$> parseInt rawKey value
  | .sndwnd => .sndwnd <$> parseInt rawKey value
  | .rcvwnd => .rcvwnd <$> parseInt rawKey value
  | .datashard => .datashard <$> parseInt rawKey value
  | .parityshard => .parityshard <$> parseInt rawKey value
  | .dscp => .dscp <$> parseInt rawKey value
  | .nocomp => .nocomp <$> parseBool value
  | .acknodelay => .acknodelay <$> parseBool value
  | .nodelay => .nodelay <$> parseInt rawKey value
  | .interval => .interval <$> parseInt rawKey value
  | .resend => .resend <$> parseInt rawKey value
  | .nc => .nc <$> parseInt rawKey value
  | .sockbuf => .sockbuf <$> parseInt rawKey value
  | .smuxver => .smuxver <$> parseInt rawKey value
  | .smuxbuf => .smuxbuf <$> parseInt rawKey value
  | .framesize => .framesize <$> parseInt rawKey value
  | .streambuf => .streambuf <$> parseInt rawKey value
  | .keepalive => .keepalive <$> parseInt rawKey value
  | .closewait => .closewait <$> parseInt rawKey value
  | .snmplog => pure (.snmplog value)
  | .snmpperiod => .snmpperiod <$> parseInt rawKey value
  | .log => pure (.log value)
  | .loglevel => pure (.loglevel value)
  | .quiet => .quiet <$> parseBool value
  | .tcp => .tcp <$> parseBool value
  | .pprof => .pprof <$> parseBool value
  | .qpp => .qpp <$> parseBool value
  | .qppCount => .qppCount <$> parseInt rawKey value

/-- The option a setting is for. -/
def CommonSetting.option : CommonSetting → CommonOption
  | key _ => .key | crypt _ => .crypt | mode _ => .mode | mtu _ => .mtu
  | ratelimit _ => .ratelimit | sndwnd _ => .sndwnd | rcvwnd _ => .rcvwnd
  | datashard _ => .datashard | parityshard _ => .parityshard | dscp _ => .dscp
  | nocomp _ => .nocomp | acknodelay _ => .acknodelay | nodelay _ => .nodelay
  | interval _ => .interval | resend _ => .resend | nc _ => .nc | sockbuf _ => .sockbuf
  | smuxver _ => .smuxver | smuxbuf _ => .smuxbuf | framesize _ => .framesize
  | streambuf _ => .streambuf | keepalive _ => .keepalive | closewait _ => .closewait
  | snmplog _ => .snmplog | snmpperiod _ => .snmpperiod | log _ => .log
  | loglevel _ => .loglevel | quiet _ => .quiet | tcp _ => .tcp | pprof _ => .pprof
  | qpp _ => .qpp | qppCount _ => .qppCount

/-- The left-hand sides of the assignments in `assign_common`. -/
def BaseConfig.write (config : BaseConfig) : CommonSetting → BaseConfig
  | .key value => { config with key := value }
  | .crypt value => { config with crypt := value }
  | .mode value => { config with mode := value }
  | .mtu value => { config with mtu := value }
  | .ratelimit value => { config with ratelimit := value }
  | .sndwnd value => { config with sndwnd := value }
  | .rcvwnd value => { config with rcvwnd := value }
  | .datashard value => { config with datashard := value }
  | .parityshard value => { config with parityshard := value }
  | .dscp value => { config with dscp := value }
  | .nocomp value => { config with nocomp := value }
  | .acknodelay value => { config with acknodelay := value }
  | .nodelay value => { config with nodelay := value }
  | .interval value => { config with interval := value }
  | .resend value => { config with resend := value }
  | .nc value => { config with nc := value }
  | .sockbuf value => { config with sockbuf := value }
  | .smuxver value => { config with smuxver := value }
  | .smuxbuf value => { config with smuxbuf := value }
  | .framesize value => { config with framesize := value }
  | .streambuf value => { config with streambuf := value }
  | .keepalive value => { config with keepalive := value }
  | .closewait value => { config with closewait := value }
  | .snmplog value => { config with snmplog := value }
  | .snmpperiod value => { config with snmpperiod := value }
  | .log value => { config with log := value }
  | .loglevel value => { config with loglevel := value }
  | .quiet value => { config with quiet := value }
  | .tcp value => { config with tcp := value }
  | .pprof value => { config with pprof := value }
  | .qpp value => { config with qpp := value }
  | .qppCount value => { config with qppCount := value }

/-- What an option is set to. -/
def BaseConfig.read (config : BaseConfig) : CommonOption → CommonSetting
  | .key => .key config.key | .crypt => .crypt config.crypt | .mode => .mode config.mode
  | .mtu => .mtu config.mtu | .ratelimit => .ratelimit config.ratelimit
  | .sndwnd => .sndwnd config.sndwnd | .rcvwnd => .rcvwnd config.rcvwnd
  | .datashard => .datashard config.datashard
  | .parityshard => .parityshard config.parityshard | .dscp => .dscp config.dscp
  | .nocomp => .nocomp config.nocomp | .acknodelay => .acknodelay config.acknodelay
  | .nodelay => .nodelay config.nodelay | .interval => .interval config.interval
  | .resend => .resend config.resend | .nc => .nc config.nc | .sockbuf => .sockbuf config.sockbuf
  | .smuxver => .smuxver config.smuxver | .smuxbuf => .smuxbuf config.smuxbuf
  | .framesize => .framesize config.framesize | .streambuf => .streambuf config.streambuf
  | .keepalive => .keepalive config.keepalive | .closewait => .closewait config.closewait
  | .snmplog => .snmplog config.snmplog | .snmpperiod => .snmpperiod config.snmpperiod
  | .log => .log config.log | .loglevel => .loglevel config.loglevel
  | .quiet => .quiet config.quiet | .tcp => .tcp config.tcp | .pprof => .pprof config.pprof
  | .qpp => .qpp config.qpp | .qppCount => .qppCount config.qppCount

namespace BaseConfig

theorem read_write_self (config : BaseConfig) (setting : CommonSetting) :
    (config.write setting).read setting.option = setting := by
  cases setting <;> rfl

/-- No assignment of `assign_common` touches the field of another option. -/
theorem read_write_of_ne (config : BaseConfig) (setting : CommonSetting) (o : CommonOption)
    (h : o ≠ setting.option) : (config.write setting).read o = config.read o := by
  cases setting <;> cases o <;> first | rfl | exact absurd rfl h

end BaseConfig

/-- **An option's text gives a setting of this option.** -/
theorem CommonOption.option_of_parse {rawKey value : String} {o : CommonOption}
    {setting : CommonSetting} (h : o.parse rawKey value = .ok setting) :
    setting.option = o := by
  cases o <;> simp only [parse, map_eq_ok_iff, pure, Except.pure, Except.ok.injEq] at h <;>
    first | (subst h; rfl) | (obtain ⟨_, -, rfl⟩ := h; rfl)

end Shimakaze
