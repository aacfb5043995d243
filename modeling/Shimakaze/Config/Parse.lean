import Shimakaze.Config.CommandLine
import Shimakaze.Config.Json
import Shimakaze.KcpTransport

/-!
# From the Inputs to an Accepted Configuration

`parse_client_config` and `parse_server_config` start from the defaults and the environment,
assign the flags and then the file, complete the result according to the mode and validate it.
The rest of the program computes with what they return, in `int`s. The validation forms a sum
that may not fit an `int` itself; nothing else it accepts does, but for the two durations the
client adds up.

The environment, the files and the order in which the map of the flags is iterated are the
inputs.

## Main results

* `Program.read_of_readConfig`: every option is what the file, or else the command line, or else
  the default says.
* `BaseConfig.sound_iff`: a validated configuration is sound if the shards can be counted.
* `accepted_sound_iff`: **what is returned is arithmetically sound if and only if the shards
  given, and for the client the durations, add up to less than `2 ^ 31`.**
-/

namespace Shimakaze

/-! ### Parsing -/

/-- `apply_env`, with the value of `SHIMAKAZE_KEY`. -/
def applyEnv (env : Option String) (config : BaseConfig) : BaseConfig :=
  match env with
  | none => config
  | some key => if key = "" then config else { config with key := toBytes key }

/-- `apply_mode`. -/
def applyMode (config : BaseConfig) : BaseConfig :=
  match normalizeKey config.mode with
  | "normal" => { config with nodelay := 0, interval := 40, resend := 2, nc := 1 }
  | "fast" => { config with nodelay := 0, interval := 30, resend := 2, nc := 1 }
  | "fast2" => { config with nodelay := 1, interval := 20, resend := 2, nc := 1 }
  | "fast3" => { config with nodelay := 1, interval := 10, resend := 2, nc := 1 }
  | _ => config

/-- `sanitize_common`. -/
def sanitizeCommon (config : BaseConfig) : BaseConfig :=
  if config.ratelimit < 0 then { config with ratelimit := 0 } else config

/-- What a program reads at its start besides its arguments. -/
structure Inputs where
  /-- `SHIMAKAZE_KEY`. -/
  env : Option String
  /-- The order in which the map of the flags is iterated. -/
  iterate : List (String × String) → List (String × String)
  /-- The object in a file, or why there is none. -/
  readFile : String → Except String JsonObject

/-- An error of the kind that most functions throw. -/
def runtime {α : Type} (result : Except String α) : Except ConfigError α :=
  result.mapError .runtimeError

/-- The part of `parse_client_config` and `parse_server_config` that assigns options. -/
def Program.readConfig {σ ο ς : Type} {P : Program σ ο ς} (K : Keys P) (M : Members P)
    (inputs : Inputs) (args : List String) (config : σ) : Except ConfigError σ := do
  let scan ← scanArgs {} args
  let config ← runtime (applyCli K config (inputs.iterate scan.values))
  if scan.configPath = "" then pure config
  else runtime (do loadJson M config (← inputs.readFile scan.configPath))

/-- The client's configuration before any input but the environment. -/
def clientStart (inputs : Inputs) : ClientConfig :=
  let config : ClientConfig := {}
  { config with toBaseConfig := applyEnv inputs.env config.toBaseConfig }

/-- The server's configuration before any input but the environment. -/
def serverStart (inputs : Inputs) : ServerConfig :=
  let config : ServerConfig := {}
  { config with toBaseConfig := applyEnv inputs.env config.toBaseConfig }

/-- `parse_client_config`. -/
def parseClientConfig (inputs : Inputs) (args : List String) :
    Except ConfigError ClientConfig := do
  let config ← Program.readConfig clientFlags clientMembers inputs args (clientStart inputs)
  let config := { config with toBaseConfig := sanitizeCommon (applyMode config.toBaseConfig) }
  runtime (validateCommonConfig config.toBaseConfig)
  runtime (throwIf (config.conn ≤ 0) "conn must be greater than 0")
  pure config

/-- `parse_server_config`. -/
def parseServerConfig (inputs : Inputs) (args : List String) :
    Except ConfigError ServerConfig := do
  let config ← Program.readConfig serverFlags serverMembers inputs args (serverStart inputs)
  let config := { config with toBaseConfig := sanitizeCommon (applyMode config.toBaseConfig) }
  runtime (validateCommonConfig config.toBaseConfig)
  pure config

theorem runtime_eq_ok_iff {α : Type} {result : Except String α} {a : α} :
    runtime result = .ok a ↔ result = .ok a := by
  cases result with
  | error message => simp [runtime, Except.mapError]
  | ok b => simp [runtime, Except.mapError]

/-! ### What the inputs say -/

namespace Program

variable {σ ο ς : Type} [DecidableEq ο] {P : Program σ ο ς}

/-- What the inputs say about an option: the member of the file that decides it, or else its
last flag in the order of the iteration, or else what the configuration starts with. -/
def given (K : Keys P) (M : Members P) (inputs : Inputs) (args : List String) (start : σ)
    (option : ο) : ς :=
  let scan := (occurrences args).foldl CliScan.store {}
  let flag := (reader K pure).value start (inputs.iterate scan.values) option
  if scan.configPath = "" then flag
  else
    match inputs.readFile scan.configPath with
    | .error _ => flag
    | .ok object =>
        (((jsonReader M).last option ((object.members.filter fun member => !M.keys.skips member) ++
          exactMembers M object)).bind (jsonReader M).given).getD flag

/-- **Every option is what the inputs say.** -/
theorem read_of_readConfig {K : Keys P} {M : Members P} {inputs : Inputs} {args : List String}
    {start config : σ} (h : readConfig K M inputs args start = .ok config) (option : ο) :
    P.read config option = given K M inputs args start option := by
  simp only [readConfig, bind_eq_ok_iff, runtime_eq_ok_iff] at h
  obtain ⟨scan, hscan, flags, hflags, h⟩ := h
  obtain rfl := scanArgs_eq args hscan
  have hread := read_of_applyCli hflags option
  rw [given]
  by_cases hpath : ((occurrences args).foldl CliScan.store {}).configPath = ""
  · rw [if_pos hpath] at h ⊢
    obtain rfl := Except.ok.inj h
    exact hread
  · rw [if_neg hpath, runtime_eq_ok_iff, bind_eq_ok_iff] at h
    rw [if_neg hpath]
    obtain ⟨object, hobject, h⟩ := h
    rw [hobject]
    rw [loadJson_eq_pass] at h
    rw [Settings.Reader.read_of_pass h, Settings.Reader.value, hread]

end Program

/-! ### Arithmetic -/

/-- An `int` can hold the number. -/
def FitsInt (value : ℤ) : Prop := -2 ^ 31 ≤ value ∧ value < 2 ^ 31

/-- The sums and differences that the validation, the codec and the transport form of the
settings do not overflow and come out as the rest of the program needs them. -/
structure BaseConfig.Sound (lib : CryptoLib) (ikcpSetmtu : Int32 → Int32) (config : BaseConfig) :
    Prop where
  shards_fit : FitsInt (config.datashard.toInt + config.parityshard.toInt)
  shards_le : config.datashard.toInt + config.parityshard.toInt ≤ 256
  codec_sound : ∀ codec, FecCodec.create config = .ok codec → codec.enabled = true →
    2 ≤ codec.shardSize ∧ codec.shardSize ≤ 256 ∧ 0 < codec.paws.toNat ∧
      codec.shardSize ∣ codec.paws.toNat
  mtu_sound : ∀ crypt codec, PacketCrypt.create lib config = .ok crypt →
    FecCodec.create config = .ok codec →
      FitsInt (config.mtu.toInt - (crypt.overhead + codec.overhead : ℕ)) ∧
        50 ≤ config.mtu.toInt - (crypt.overhead + codec.overhead : ℕ)
  builds : ∃ transport, KcpTransport.create lib ikcpSetmtu config = .ok transport

/-- The client also adds up, for a connection that expires, the times it is kept. -/
structure ClientConfig.Sound (lib : CryptoLib) (ikcpSetmtu : Int32 → Int32)
    (config : ClientConfig) : Prop where
  base : config.toBaseConfig.Sound lib ikcpSetmtu
  durations_fit : 0 < config.autoexpire.toInt →
    FitsInt (max 0 config.autoexpire.toInt + max 0 config.scavengettl.toInt)

variable {lib : CryptoLib} {ikcpSetmtu : Int32 → Int32}

namespace BaseConfig

/-- What the validation says about the shards if their sum does not overflow. -/
theorem Accepted.shards_le {config : BaseConfig} (h : config.Accepted)
    (hsum : config.datashard.toInt + config.parityshard.toInt < 2 ^ 31) :
    0 ≤ config.datashard.toInt ∧ 0 ≤ config.parityshard.toInt ∧
      config.datashard.toInt + config.parityshard.toInt ≤ 256 := by
  have hshards := ((accepted_iff config).mp h).2.2.2.1
  rw [Int32.lt_iff_toInt_lt, Int32.lt_iff_toInt_lt, gt_iff_lt, Int32.lt_iff_toInt_lt] at hshards
  have hzero : (0 : Int32).toInt = 0 := rfl
  have hlimit : (256 : Int32).toInt = 256 := rfl
  have hadd : ¬ (config.datashard.toInt < 0 ∨ config.parityshard.toInt < 0) →
      (config.datashard + config.parityshard).toInt =
        config.datashard.toInt + config.parityshard.toInt := by
    intro hsigns
    rw [Int32.toInt_add]
    exact Int.bmod_eq_of_le (by omega) (by omega)
  omega

/-- **A validated configuration is sound if and only if its shards can be counted.** -/
theorem sound_iff (hlib : lib.Lawful) (hsetmtu : ∀ mtu : Int32, 50 ≤ mtu.toInt → ikcpSetmtu mtu = 0)
    {config : BaseConfig} (h : config.Accepted) :
    config.Sound lib ikcpSetmtu ↔
      config.datashard.toInt + config.parityshard.toInt < 2 ^ 31 := by
  refine ⟨fun hsound => hsound.shards_fit.2, fun hsum => ?_⟩
  obtain ⟨hd, hp, hle⟩ := h.shards_le hsum
  obtain ⟨hlow, hhigh⟩ := h.mtu_range
  obtain ⟨crypt, hcrypt⟩ := PacketCrypt.create_ok hlib config
  obtain ⟨codec, hcodec, hready⟩ := FecCodec.create_ok hd hp hle
  have hmtu : ∀ (crypt : PacketCrypt) (codec : FecCodec),
      FitsInt (config.mtu.toInt - (crypt.overhead + codec.overhead : ℕ)) ∧
        50 ≤ config.mtu.toInt - (crypt.overhead + codec.overhead : ℕ) := by
    intro crypt codec
    have hcryptLe := KcpTransport.overhead_le crypt
    have hcodecLe := KcpTransport.fecOverhead_le codec
    rw [FitsInt]
    omega
  refine ⟨⟨by omega, hsum⟩, hle, fun codec' hcodec' henabled => ?_, fun crypt codec _ _ =>
    hmtu crypt codec, ?_⟩
  · obtain rfl := Except.ok.inj (hcodec.symm.trans hcodec')
    obtain ⟨d, p, hready⟩ := hready henabled
    have hdpos := hready.data_pos
    have hppos := hready.parity_pos
    rw [hready.size_eq, hready.paws_eq]
    exact ⟨by omega, hready.size_le, wheel_pos (by omega) hready.size_le,
      Nat.dvd_mul_left ..⟩
  · have hmtuInt := KcpTransport.toInt_kcpMtu h crypt codec
    have hfifty := (hmtu crypt codec).2
    have hpass : ¬ (config.mtu - Int32.ofNat (crypt.overhead + codec.overhead) < 50 ∨
        ikcpSetmtu (config.mtu - Int32.ofNat (crypt.overhead + codec.overhead)) ≠ 0) := by
      have hlimit : (50 : Int32).toInt = 50 := rfl
      rw [Int32.lt_iff_toInt_lt, hmtuInt]
      rintro (hsmall | hset)
      · omega
      · exact hset (hsetmtu _ (hmtuInt ▸ hfifty))
    rw [KcpTransport.create, hcrypt, hcodec]
    simp only [KcpTransport.configureKcp, if_neg hpass]
    exact ⟨_, rfl⟩

/-- Completing the configuration leaves the shards alone. -/
theorem shards_of_finish (config : BaseConfig) :
    (sanitizeCommon (applyMode config)).datashard = config.datashard ∧
      (sanitizeCommon (applyMode config)).parityshard = config.parityshard := by
  have hmode : (applyMode config).datashard = config.datashard ∧
      (applyMode config).parityshard = config.parityshard := by
    rw [applyMode]
    split <;> exact ⟨rfl, rfl⟩
  rw [sanitizeCommon]
  split <;> exact hmode

/-- **A completed configuration** is sound if the shards that were assigned can be counted. -/
theorem sound_finish_iff {config : BaseConfig} (hlib : lib.Lawful)
    (hsetmtu : ∀ mtu : Int32, 50 ≤ mtu.toInt → ikcpSetmtu mtu = 0)
    (h : (sanitizeCommon (applyMode config)).Accepted) :
    (sanitizeCommon (applyMode config)).Sound lib ikcpSetmtu ↔
      config.datashard.toInt + config.parityshard.toInt < 2 ^ 31 := by
  obtain ⟨hdata, hparity⟩ := shards_of_finish config
  rw [sound_iff hlib hsetmtu h, hdata, hparity]

end BaseConfig

-- what follows uses no more than that of these two, and comparing configurations is slow when
-- it looks into them
attribute [irreducible] applyMode sanitizeCommon

/-! ### Accepted configurations -/

/-- The numbers of shards that are given add up to an `int`. -/
def Program.ShardsCountable {σ ο ς : Type} (P : Program σ ο ς) (given : ο → ς) : Prop :=
  ∀ d p, given (P.commonOption .datashard) = P.common (.datashard d) →
    given (P.commonOption .parityshard) = P.common (.parityshard p) →
      d.toInt + p.toInt < 2 ^ 31

/-- The times that are given for a connection that expires add up to an `int`. -/
def DurationsCountable (given : ClientOption → ClientSetting) : Prop :=
  ∀ autoexpire scavengettl, given .autoexpire = .autoexpire autoexpire →
    given .scavengettl = .scavengettl scavengettl →
      0 < autoexpire.toInt → autoexpire.toInt + max 0 scavengettl.toInt < 2 ^ 31

theorem Program.shardsCountable_iff {σ ο ς : Type} {P : Program σ ο ς} {given : ο → ς}
    {config : BaseConfig} (hgiven : ∀ o, given (P.commonOption o) = P.common (config.read o))
    (hcommon : Function.Injective P.common) :
    P.ShardsCountable given ↔ config.datashard.toInt + config.parityshard.toInt < 2 ^ 31 := by
  constructor
  · exact fun h => h _ _ (hgiven .datashard) (hgiven .parityshard)
  · intro h d p hd hp
    cases hcommon ((hgiven .datashard).symm.trans hd)
    cases hcommon ((hgiven .parityshard).symm.trans hp)
    exact h

theorem durationsCountable_iff {given : ClientOption → ClientSetting} {config : ClientConfig}
    (hgiven : ∀ o, client.read config o = given o) :
    DurationsCountable given ↔
      (0 < config.autoexpire.toInt →
        config.autoexpire.toInt + max 0 config.scavengettl.toInt < 2 ^ 31) := by
  constructor
  · exact fun h => h _ _ (hgiven .autoexpire).symm (hgiven .scavengettl).symm
  · intro h autoexpire scavengettl ha hs
    cases (hgiven .autoexpire).trans ha
    cases (hgiven .scavengettl).trans hs
    exact h

/-- What a parsed client configuration comes from. -/
theorem of_parseClientConfig {inputs : Inputs} {args : List String} {config : ClientConfig}
    (h : parseClientConfig inputs args = .ok config) :
    ∃ assigned : ClientConfig,
      (∀ option, client.read assigned option =
        Program.given clientFlags clientMembers inputs args (clientStart inputs) option) ∧
      config = { assigned with
        toBaseConfig := sanitizeCommon (applyMode assigned.toBaseConfig) } ∧
      config.toBaseConfig.Accepted := by
  simp only [parseClientConfig, bind_eq_ok_iff, runtime_eq_ok_iff, pure, Except.pure,
    Except.ok.injEq] at h
  obtain ⟨assigned, hassigned, ⟨⟩, hvalid, ⟨⟩, -, rfl⟩ := h
  exact ⟨assigned, fun option => Program.read_of_readConfig hassigned option, rfl, hvalid⟩

/-- What a parsed server configuration comes from. -/
theorem of_parseServerConfig {inputs : Inputs} {args : List String} {config : ServerConfig}
    (h : parseServerConfig inputs args = .ok config) :
    ∃ assigned : ServerConfig,
      (∀ option, server.read assigned option =
        Program.given serverFlags serverMembers inputs args (serverStart inputs) option) ∧
      config = { assigned with
        toBaseConfig := sanitizeCommon (applyMode assigned.toBaseConfig) } ∧
      config.toBaseConfig.Accepted := by
  simp only [parseServerConfig, bind_eq_ok_iff, runtime_eq_ok_iff, pure, Except.pure,
    Except.ok.injEq] at h
  obtain ⟨assigned, hassigned, ⟨⟩, hvalid, rfl⟩ := h
  exact ⟨assigned, fun option => Program.read_of_readConfig hassigned option, rfl, hvalid⟩

/-- **A configuration that is returned is arithmetically sound if and only if** the numbers of
shards that are given, and for a client with connections that expire the times, **add up to
less than `2 ^ 31`.** -/
theorem accepted_sound_iff (hlib : lib.Lawful)
    (hsetmtu : ∀ mtu : Int32, 50 ≤ mtu.toInt → ikcpSetmtu mtu = 0) (inputs : Inputs)
    (args : List String) :
    (∀ config, parseClientConfig inputs args = .ok config →
      (config.Sound lib ikcpSetmtu ↔
        client.ShardsCountable
            (Program.given clientFlags clientMembers inputs args (clientStart inputs)) ∧
          DurationsCountable
            (Program.given clientFlags clientMembers inputs args (clientStart inputs)))) ∧
    ∀ config, parseServerConfig inputs args = .ok config →
      (config.toBaseConfig.Sound lib ikcpSetmtu ↔
        server.ShardsCountable
          (Program.given serverFlags serverMembers inputs args (serverStart inputs))) := by
  constructor
  · intro config hparse
    obtain ⟨assigned, hread, rfl, haccepted⟩ := of_parseClientConfig hparse
    rw [Program.shardsCountable_iff (fun o => (hread (.common o)).symm)
      (fun _ _ => ClientSetting.common.inj), durationsCountable_iff hread,
      ← BaseConfig.sound_finish_iff hlib hsetmtu haccepted]
    constructor
    · intro hsound
      refine ⟨hsound.base, fun hpos => ?_⟩
      have hlt := (hsound.durations_fit hpos).2
      dsimp only at hlt hpos
      omega
    · rintro ⟨hsound, hlt⟩
      refine ⟨hsound, fun hpos => ?_⟩
      have hlt := hlt hpos
      dsimp only at hpos ⊢
      rw [FitsInt]
      omega
  · intro config hparse
    obtain ⟨assigned, hread, rfl, haccepted⟩ := of_parseServerConfig hparse
    rw [Program.shardsCountable_iff (fun o => (hread (.common o)).symm)
      (fun _ _ => ServerSetting.common.inj)]
    exact BaseConfig.sound_finish_iff hlib hsetmtu haccepted

/-- Stand-ins for ciphers: they take the keys that the real ones take, and have their block
sizes. -/
def standInLibrary : CryptoLib where
  pbkdf2Sha1 _ _ _ size := Vector.replicate size 0
  makeBlockCipher cipher key :=
    if cipher.takesKey key.length then some ⟨cipher.blockSize, id⟩ else none
  salsa20 _ _ _ := 0
  gcmEncrypt _ _ packet := (Vector.replicate packet.length 0, Vector.replicate 16 0)
  gcmDecrypt _ _ _ _ := none

/-- Inputs without a key in the environment and without files, the map iterated in the order
of the model. -/
def flagsOnly : Inputs where
  env := none
  iterate := id
  readFile path := throw ("failed to open config file: " ++ path)

/-- A connection that expires after a minute. -/
theorem one_minute_sound :
    ∃ config, parseClientConfig flagsOnly ["--crypt=null", "--ds", "3", "--autoexpire", "60"] =
        .ok config ∧
      config.Sound standInLibrary (fun _ => 0) := by
  obtain ⟨config, hconfig⟩ := Option.isSome_iff_exists.mp (show (parseClientConfig flagsOnly
    ["--crypt=null", "--ds", "3", "--autoexpire", "60"]).toOption.isSome by decide +kernel)
  have hlawful : standInLibrary.Lawful := fun cipher key hkey => ⟨_, if_pos hkey, rfl⟩
  have hgiven : [ClientOption.common .datashard, .common .parityshard, .autoexpire,
      .scavengettl].map (Program.given clientFlags clientMembers flagsOnly
        ["--crypt=null", "--ds", "3", "--autoexpire", "60"] (clientStart flagsOnly)) =
      [.common (.datashard 3), .common (.parityshard 3), .autoexpire 60, .scavengettl 600] := by
    decide +kernel
  obtain ⟨hthree, hgiven⟩ := List.cons.inj hgiven
  obtain ⟨hthree', hgiven⟩ := List.cons.inj hgiven
  obtain ⟨hminute, hgiven⟩ := List.cons.inj hgiven
  obtain ⟨hwait, -⟩ := List.cons.inj hgiven
  refine ⟨config, ok_of_toOption hconfig, ((accepted_sound_iff hlawful (fun _ _ => rfl) flagsOnly
    ["--crypt=null", "--ds", "3", "--autoexpire", "60"]).1 config (ok_of_toOption hconfig)).mpr
    ⟨fun d p hd hp => ?_, fun autoexpire scavengettl ha hs _ => ?_⟩⟩
  · cases hthree.symm.trans hd
    cases hthree'.symm.trans hp
    decide
  · cases hminute.symm.trans ha
    cases hwait.symm.trans hs
    decide

/-- Counts of shards whose sum wraps around to -2 are accepted, and no codec can be made. -/
theorem wrapped_shards_accepted :
    ∃ config, parseServerConfig flagsOnly
        ["--datashard", "2147483647", "--parityshard", "2147483647"] = .ok config ∧
      config.datashard = 2147483647 ∧ config.parityshard = 2147483647 ∧
      ¬ config.toBaseConfig.Sound standInLibrary (fun _ => 0) ∧
      ∃ message, FecCodec.create config.toBaseConfig = .error message := by
  obtain ⟨config, hconfig, hshards⟩ := Option.map_eq_some_iff.mp (show (parseServerConfig flagsOnly
      ["--datashard", "2147483647", "--parityshard", "2147483647"]).toOption.map
        (fun config => (config.datashard, config.parityshard)) =
          some (2147483647, 2147483647) by decide +kernel)
  obtain ⟨hd, hp⟩ := Prod.mk.inj hshards
  refine ⟨config, ok_of_toOption hconfig, hd, hp, fun hsound => ?_,
    FecCodec.create_of_wrapped ?_ ?_ ?_⟩
  · have hle := hsound.shards_le
    rw [hd, hp] at hle
    exact absurd hle (by decide)
  · rw [hd]
    decide
  · rw [hp]
    decide
  · rw [hd, hp]
    decide

end Shimakaze
