import Shimakaze.Config.Programs

/-!
# The Command Line

`scan_args` reads the arguments into a map, one entry for each normalised key, and
`apply_client_cli` and `apply_server_cli` assign the entries in the order in which the map is
iterated. The map is an `unordered_map`: nothing is known about this order, and a result is
one for some order.

What was typed is a list of occurrences, which the map forgets: it keeps the last occurrence
of every spelling of an option, and where an option has two spellings (`ds` and `datashard`)
the iteration decides between them.

## Main results

* `scanArgs_eq`: what scanning keeps of the occurrences.
* `applyClientCli_eq_pass`, `applyServerCli_eq_pass`: the two passes over the map.
* `lastOccurrenceWins_iff`: **the last occurrence of every option wins, whatever the order of
  the iteration, if and only if no option was given two values under two spellings.**
-/

namespace Shimakaze

/-! ### Scanning -/

/-- `is_bool_key`. -/
def isBoolKey (key : String) : Bool :=
  ["nocomp", "acknodelay", "quiet", "tcp", "pprof", "qpp"].contains (normalizeKey key)

/-- `split_argument`: the key without its dashes, and the value after `=`. -/
def splitArgument (arg : String) : String × Option String :=
  let text := arg.toList.dropWhile (· = '-')
  let key := text.takeWhile (· ≠ '=')
  match text.dropWhile (· ≠ '=') with
  | [] => (String.ofList key, none)
  | _ :: value => (String.ofList key, some (String.ofList value))

/-- The arguments that ask for help. -/
def isHelp (raw : String) : Bool := raw = "-h" || raw = "--help" || raw = "help"

/-- The arguments that ask for the version. -/
def isVersion (raw : String) : Bool := raw = "-v" || raw = "--version" || raw = "version"

/-- `raw.starts_with('-')`. -/
def isFlag (raw : String) : Bool := raw.toList.head? = some '-'

-- a proof about the loop has no need to look into the text of an argument
attribute [irreducible] isBoolKey splitArgument isHelp isVersion isFlag

/-- What ends the reading of a configuration. -/
inductive ConfigError
  | helpRequested
  | versionRequested
  | runtimeError (message : String)
  deriving DecidableEq, Repr

/-- `CliScan`. The entries of the map are in the order in which they were last assigned, which
is not the order of its iteration. -/
structure CliScan where
  values : List (String × String) := []
  configPath : String := ""
  deriving DecidableEq, Repr

/-- Whether a flag names the configuration file. -/
def isConfigKey (key : String) : Bool := key = "c" || key = "config"

/-- What the loop of `scan_args` does with a flag and its value. -/
def CliScan.store (scan : CliScan) (entry : String × String) : CliScan :=
  if isConfigKey entry.1 then { scan with configPath := entry.2 }
  else { scan with values := Settings.put scan.values entry }

/-- The loop of `scan_args`, over the arguments that are left. -/
def scanArgs (scan : CliScan) : List String → Except ConfigError CliScan
  | [] => pure scan
  | raw :: rest =>
      if isHelp raw then throw .helpRequested
      else if isVersion raw then throw .versionRequested
      else if !isFlag raw then
        throw (.runtimeError ("unexpected positional argument: " ++ raw))
      else
        let (key, inlineValue) := splitArgument raw
        let normalized := normalizeKey key
        match inlineValue with
        | some value => scanArgs (scan.store (normalized, value)) rest
        | none =>
            if isBoolKey normalized then scanArgs (scan.store (normalized, "true")) rest
            else
              match rest with
              | [] => throw (.runtimeError ("missing value for flag: " ++ key))
              | value :: rest => scanArgs (scan.store (normalized, value)) rest

/-- The occurrences of flags in an argument list, with their values: the text after `=`,
`true` for a flag that takes no value, and the next argument otherwise. -/
def occurrences : List String → List (String × String)
  | [] => []
  | raw :: rest =>
      match splitArgument raw with
      | (key, some value) => (normalizeKey key, value) :: occurrences rest
      | (key, none) =>
          if isBoolKey (normalizeKey key) then (normalizeKey key, "true") :: occurrences rest
          else
            match rest with
            | [] => []
            | value :: rest => (normalizeKey key, value) :: occurrences rest

/-- **Scanning stores the occurrences one after another**, by recursion along the loop. -/
theorem scanArgs_eq : ∀ (args : List String) {scan scan' : CliScan},
    scanArgs scan args = .ok scan' → scan' = (occurrences args).foldl CliScan.store scan
  | [], scan, scan', h => by
      simpa [scanArgs, pure, Except.pure, eq_comm, occurrences] using h
  | raw :: rest, scan, scan', h => by
      rw [scanArgs] at h
      rw [occurrences]
      by_cases hhelp : isHelp raw
      · simp [hhelp, throw, throwThe, MonadExceptOf.throw] at h
      by_cases hversion : isVersion raw
      · simp [hhelp, hversion, throw, throwThe, MonadExceptOf.throw] at h
      by_cases hflag : !isFlag raw
      · simp [hhelp, hversion, hflag, throw, throwThe, MonadExceptOf.throw] at h
      simp only [hhelp, hversion, hflag, Bool.false_eq_true, if_false] at h
      generalize splitArgument raw = parts at h ⊢
      obtain ⟨key, inlineValue⟩ := parts
      cases inlineValue with
      | some value => exact scanArgs_eq rest h
      | none =>
          by_cases hbool : isBoolKey (normalizeKey key)
          · simp only [hbool, if_true] at h ⊢
            exact scanArgs_eq rest h
          · simp only [hbool, Bool.false_eq_true, if_false] at h ⊢
            cases rest with
            | nil => simp [throw, throwThe, MonadExceptOf.throw] at h
            | cons value rest => exact scanArgs_eq rest h

/-- The flag that names the file goes elsewhere; the others are entered in the map. -/
theorem values_foldl_store (history : List (String × String)) (scan : CliScan) :
    (history.foldl CliScan.store scan).values =
      (history.filter fun entry => !isConfigKey entry.1).foldl Settings.put scan.values := by
  induction history generalizing scan with
  | nil => rfl
  | cons entry history ih =>
      rw [List.foldl_cons, ih, List.filter_cons, CliScan.store]
      cases isConfigKey entry.1 <;> rfl

/-! ### Assignment -/

/-- The normalised keys that `apply_cli_common` passes over. -/
def sideFlags : List String :=
  ["localaddr", "l", "remoteaddr", "r", "conn", "autoexpire", "scavengettl", "listen", "target",
    "t"]

/-- The comparisons of the second loop of `apply_client_cli`. -/
def ClientOption.ofFlag : String → Option ClientOption
  | "localaddr" | "l" => some .localaddr
  | "remoteaddr" | "r" => some .remoteaddr
  | "conn" => some .conn
  | "autoexpire" => some .autoexpire
  | "scavengettl" => some .scavengettl
  | _ => none

/-- The comparisons of the second loop of `apply_server_cli`. -/
def ServerOption.ofFlag : String → Option ServerOption
  | "listen" | "l" => some .listen
  | "target" | "t" => some .target
  | _ => none

/-- The flags of the client. -/
def clientFlags : Program.Keys client where
  skipped := sideFlags
  option := ClientOption.ofFlag
  mem_skipped key o h := by
    rw [ClientOption.ofFlag.eq_def] at h
    split at h <;> cases h <;> simp [sideFlags]
  ne_common key o c h := by
    rw [ClientOption.ofFlag.eq_def] at h
    split at h <;> cases h <;> exact nofun

/-- The flags of the server. -/
def serverFlags : Program.Keys server where
  skipped := sideFlags
  option := ServerOption.ofFlag
  mem_skipped key o h := by
    rw [ServerOption.ofFlag.eq_def] at h
    split at h <;> cases h <;> simp [sideFlags]
  ne_common key o c h := by
    rw [ServerOption.ofFlag.eq_def] at h
    split at h <;> cases h <;> exact nofun

namespace Program

variable {σ ο ς : Type} {P : Program σ ο ς} (K : Keys P)

/-- `apply_cli_common`. -/
def applyCliCommon (config : σ) (entries : List (String × String)) : Except String σ :=
  applyCommon K pure config entries

/-- The second loop of `apply_client_cli` and `apply_server_cli`. -/
def applyOwn (config : σ) (entries : List (String × String)) : Except String σ :=
  entries.foldlM
    (fun config entry =>
      match K.option (normalizeKey entry.1) with
      | some option => P.assign config entry.1 entry.2 option
      | none => pure config)
    config

/-- `apply_client_cli` and `apply_server_cli`: both loops, over the map in the order of its
iteration. -/
def applyCli (config : σ) (entries : List (String × String)) : Except String σ := do
  let config ← applyCliCommon K config entries
  applyOwn K config entries

variable {K}

/-- **The second loop** heeds the entries that the first left out. -/
theorem applyOwn_eq_pass (config : σ) (entries : List (String × String)) :
    applyOwn K config entries = (reader K pure).pass config (entries.filter K.skips) := by
  rw [applyOwn, Settings.Reader.pass, List.foldlM_filter]
  congr 1
  funext config entry
  cases hoption : K.option (normalizeKey entry.1) with
  | none =>
      cases hskip : K.skips entry with
      | true => simp [Settings.Reader.step, reader, hskip, hoption, Except.map, pure, Except.pure]
      | false => simp
  | some o =>
      have hskip : K.skips entry := by
        rw [Keys.skips, List.contains_iff_mem]
        exact K.mem_skipped _ o hoption
      simp only [hskip, if_true, Settings.Reader.step, reader, hoption, assign]
      simp only [bind, Except.bind, pure, Except.pure]
      cases P.parse entry.1 entry.2 o <;> rfl

/-- The two loops are one pass, the entries of the second loop last. -/
theorem applyCli_eq_pass (config : σ) (entries : List (String × String)) :
    applyCli K config entries = (reader K pure).pass config
      ((entries.filter fun entry => !K.skips entry) ++ entries.filter K.skips) := by
  rw [applyCli, applyCliCommon, applyCommon_eq_pass, Settings.Reader.pass_append]
  congr 1
  funext config
  exact applyOwn_eq_pass config entries

end Program

/-- `apply_client_cli`. -/
def applyClientCli (config : ClientConfig) (entries : List (String × String)) :
    Except String ClientConfig :=
  Program.applyCli clientFlags config entries

/-- `apply_server_cli`. -/
def applyServerCli (config : ServerConfig) (entries : List (String × String)) :
    Except String ServerConfig :=
  Program.applyCli serverFlags config entries

/-! ### The last occurrence -/

namespace Program

variable {σ ο ς : Type} [DecidableEq ο] {P : Program σ ο ς}

/-- Whatever the order in which the map is iterated, the assignment succeeds and every option
holds what its last occurrence gives. -/
def LastOccurrenceWins (K : Keys P) (config : σ) (args : List String) (scan : CliScan) : Prop :=
  ∀ order, order.Perm scan.values → ∃ result, applyCli K config order = .ok result ∧
    ∀ option, P.read result option = (reader K pure).value config (occurrences args) option

omit [DecidableEq ο] in
/-- No option is given different values under different spellings: of any two spellings the
last occurrences agree. -/
def Unambiguous (K : Keys P) (args : List String) : Prop :=
  ∀ entry entry', Settings.Newest (occurrences args) entry →
    Settings.Newest (occurrences args) entry' → ∀ option,
      (reader K pure).names entry = some option → (reader K pure).names entry' = some option →
        (reader K pure).given entry = (reader K pure).given entry'

variable {K : Keys P} {config : σ} {order : List (String × String)}

omit [DecidableEq ο] in
/-- An assignment succeeds on valid entries, whatever their order. -/
theorem applyCli_ok_iff :
    (∃ result, applyCli K config order = .ok result) ↔
      ∀ entry ∈ order, (reader K pure).Valid entry := by
  rw [applyCli_eq_pass, Settings.Reader.pass_ok_iff]
  constructor
  · intro h entry hentry
    cases hskip : K.skips entry with
    | true => exact h entry (List.mem_append_right _ (List.mem_filter.mpr ⟨hentry, hskip⟩))
    | false =>
        refine h entry (List.mem_append_left _ (List.mem_filter.mpr ⟨hentry, ?_⟩))
        rw [hskip, Bool.not_false]
  · intro h entry hentry
    rcases List.mem_append.mp hentry with hentry | hentry
    · exact h entry (List.mem_filter.mp hentry).1
    · exact h entry (List.mem_filter.mp hentry).1

/-- **The loops are read like one**: the last entry of an option decides it. -/
theorem read_of_applyCli {result : σ} (h : applyCli K config order = .ok result) (option : ο) :
    P.read result option = (reader K pure).value config order option := by
  rw [applyCli_eq_pass] at h
  rw [Settings.Reader.read_of_pass h]
  refine Settings.Reader.value_congr (Settings.Reader.last_partition fun _ _ _ _ h h' => ?_)
  exact skips_eq_of_names h h'

omit [DecidableEq ο] in
theorem names_congr {entry entry' : String × String} (h : entry.1 = entry'.1) :
    (reader K pure).names entry = (reader K pure).names entry' := by
  obtain ⟨key, value⟩ := entry
  obtain ⟨key', value'⟩ := entry'
  obtain rfl : key = key' := h
  rfl

omit [DecidableEq ο] in
/-- The flag that names the file is not the flag of an option. -/
theorem not_isConfigKey_of_names (hK : K.skipped = sideFlags) {entry : String × String}
    {option : ο} (h : (reader K pure).names entry = some option) :
    (!isConfigKey entry.1) = true := by
  have hnone : ∀ key, isConfigKey key → normalizeKey key ∉ sideFlags ∧
      CommonOption.ofKey (normalizeKey key) = none := by
    intro key hkey
    rw [isConfigKey, Bool.or_eq_true, decide_eq_true_eq, decide_eq_true_eq] at hkey
    rcases hkey with rfl | rfl
    · exact ⟨by decide +kernel, by decide +kernel⟩
    · exact ⟨by decide +kernel, by decide +kernel⟩
  rw [Bool.not_eq_true', Bool.eq_false_iff]
  intro hconfig
  obtain ⟨hside, hcommon⟩ := hnone entry.1 hconfig
  have hskip : K.skips entry = false := by
    rw [Keys.skips, hK, Bool.eq_false_iff]
    simpa using hside
  simp [reader, hskip, hcommon] at h

/-- **The last occurrence wins in every order exactly when the spellings agree.** -/
theorem lastOccurrenceWins_iff (hK : K.skipped = sideFlags) {args : List String}
    {scan : CliScan} (hscan : scanArgs {} args = .ok scan)
    (haccepted : ∃ order result, order.Perm scan.values ∧ applyCli K config order = .ok result) :
    LastOccurrenceWins K config args scan ↔ Unambiguous K args := by
  have hvalues : scan.values =
      ((occurrences args).filter fun entry => !isConfigKey entry.1).foldl Settings.put [] := by
    rw [scanArgs_eq args hscan, values_foldl_store]
  have hvalid : ∀ entry ∈ scan.values, (reader K pure).Valid entry := by
    obtain ⟨order, result, hperm, hok⟩ := haccepted
    intro entry hentry
    exact applyCli_ok_iff.mp ⟨result, hok⟩ entry (hperm.mem_iff.mpr hentry)
  -- the values of the map are what the occurrences say, but for the flag of the file
  have hvalue : ∀ option, (reader K pure).value config
      ((occurrences args).filter fun entry => !isConfigKey entry.1) option =
        (reader K pure).value config (occurrences args) option := fun option =>
    Settings.Reader.value_congr (Settings.Reader.last_filter fun _ _ h =>
      not_isConfigKey_of_names hK h)
  have hnewest : ∀ entry option, (reader K pure).names entry = some option →
      (Settings.Newest ((occurrences args).filter fun entry => !isConfigKey entry.1) entry ↔
        Settings.Newest (occurrences args) entry) := fun entry option h =>
    Settings.newest_filter (fun e he => by rw [he, not_isConfigKey_of_names hK h])
  have htable := Settings.Reader.all_orders_table_iff (R := reader K pure) (s := config)
    (fun _ _ => names_congr) (hvalues ▸ hvalid)
  rw [← hvalues] at htable
  constructor
  · intro h entry entry' he he' option ho ho'
    refine htable.mp (fun order hperm option => ?_) entry entry' ((hnewest _ _ ho).mpr he)
      ((hnewest _ _ ho').mpr he') option ho ho'
    obtain ⟨result, hok, hread⟩ := h order hperm
    rw [hvalue, ← hread option, read_of_applyCli hok]
  · intro h order hperm
    obtain ⟨result, hok⟩ := applyCli_ok_iff.mpr fun entry hentry =>
      hvalid entry (hperm.mem_iff.mp hentry)
    refine ⟨result, hok, fun option => ?_⟩
    rw [read_of_applyCli hok, ← hvalue]
    refine htable.mpr (fun entry entry' he he' option ho ho' => ?_) order hperm option
    exact h entry entry' ((hnewest _ _ ho).mp he) ((hnewest _ _ ho').mp he') option ho ho'

end Program

/-- **The last occurrence of every option wins if and only if no option is given two values
under two spellings**, for the client and for the server. -/
theorem last_occurrence_wins_iff {args : List String} {scan : CliScan}
    (hscan : scanArgs {} args = .ok scan) :
    (∀ config : ClientConfig,
      (∃ order result, order.Perm scan.values ∧ applyClientCli config order = .ok result) →
        (Program.LastOccurrenceWins clientFlags config args scan ↔
          Program.Unambiguous clientFlags args)) ∧
    ∀ config : ServerConfig,
      (∃ order result, order.Perm scan.values ∧ applyServerCli config order = .ok result) →
        (Program.LastOccurrenceWins serverFlags config args scan ↔
          Program.Unambiguous serverFlags args) :=
  ⟨fun _ haccepted => Program.lastOccurrenceWins_iff rfl hscan haccepted,
    fun _ haccepted => Program.lastOccurrenceWins_iff rfl hscan haccepted⟩

/-- One spelling twice: the second occurrence wins. -/
theorem one_spelling_twice :
    Program.LastOccurrenceWins clientFlags {} ["--ds=5", "--DS", "7"] ⟨[("ds", "7")], ""⟩ := by
  have haccepted : ∃ order result, order.Perm [("ds", "7")] ∧
      applyClientCli {} order = .ok result := by
    obtain ⟨result, hresult⟩ := Option.isSome_iff_exists.mp
      (show (applyClientCli {} [("ds", "7")]).toOption.isSome by decide +kernel)
    exact ⟨_, result, .refl _, ok_of_toOption hresult⟩
  have hnewest : ∀ entry, Settings.Newest (occurrences ["--ds=5", "--DS", "7"]) entry →
      entry = ("ds", "7") := by
    intro entry hentry
    have htable : (occurrences ["--ds=5", "--DS", "7"]).foldl Settings.put [] = [("ds", "7")] := by
      decide +kernel
    rwa [← Settings.mem_foldl_put, htable, List.mem_singleton] at hentry
  refine ((last_occurrence_wins_iff (by decide +kernel)).1 {} haccepted).mpr ?_
  intro entry entry' h h' option _ _
  rw [hnewest entry h, hnewest entry' h']

/-- Two spellings of one option: the order of the iteration decides. -/
theorem two_spellings :
    scanArgs {} ["--ds", "5", "--datashard", "7"] =
        .ok ⟨[("ds", "5"), ("datashard", "7")], ""⟩ ∧
      (applyClientCli {} [("ds", "5"), ("datashard", "7")]).toOption.map (·.datashard) = some 7 ∧
      (applyClientCli {} [("datashard", "7"), ("ds", "5")]).toOption.map (·.datashard) = some 5 ∧
      ¬ Program.LastOccurrenceWins clientFlags {} ["--ds", "5", "--datashard", "7"]
        ⟨[("ds", "5"), ("datashard", "7")], ""⟩ := by
  refine ⟨by decide +kernel, by decide +kernel, by decide +kernel, fun h => ?_⟩
  obtain ⟨result, hok, hread⟩ := h [("datashard", "7"), ("ds", "5")] (.swap ..)
  have hfive : (applyClientCli {} [("datashard", "7"), ("ds", "5")]).toOption.map
      (fun result => client.read result (.common .datashard)) =
        some (.common (.datashard 5)) := by decide +kernel
  have hseven : (Program.reader clientFlags pure).value {}
      (occurrences ["--ds", "5", "--datashard", "7"]) (.common .datashard) =
        .common (.datashard 7) := by decide +kernel
  have hresult : applyClientCli {} [("datashard", "7"), ("ds", "5")] = .ok result := hok
  rw [hresult, Except.toOption, Option.map_some, hread, hseven] at hfive
  exact absurd hfive (by decide)

end Shimakaze
