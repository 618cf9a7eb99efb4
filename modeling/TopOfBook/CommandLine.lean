import TopOfBook.Replay

/-! The command line: `check-config` prints a configuration with all its defaults, `replay`
replays a file of events and writes the updates and the statistics. What it needs of the world
is a parameter, a record of operations. -/

namespace TopOfBook.CommandLine

structure ReplayOptions where
  /-- The file with the events, `-` for standard input. -/
  input : String
  /-- Where the updates go, standard output when there is none. -/
  output : Option String
  statsCsv : Option String
  reportJson : Option String
  bookDepthCsv : Option String
  shards : Option UInt64
  instrumentStatistics : Bool

inductive Command
  | checkConfig
  | replay (options : ReplayOptions)

structure Options where
  command : Command
  config : Option String
  debug : Bool

/-! ### Reading the arguments -/

/-- The arguments sorted into words and options, with the value of each option that has one. -/
structure Arguments where
  words : List String
  values : List (String × String)
  flags : List String

def valueOptions : List String :=
  ["--config", "--output", "--stats-csv", "--report-json", "--book-depth-csv", "--shards"]

def flagOptions : List String := ["--debug", "--symbol-stats"]

/-- A value may follow its option as the next argument or behind an equals sign. -/
def Arguments.read? : List String → Option Arguments
  | [] => some ⟨[], [], []⟩
  | [arg] =>
    if flagOptions.contains arg then some ⟨[], [], [arg]⟩
    else match arg.splitOn "=" with
      | name :: first :: more =>
        if valueOptions.contains name then
          some ⟨[], [(name, "=".intercalate (first :: more))], []⟩
        else if arg.startsWith "-" then none
        else some ⟨[arg], [], []⟩
      | _ => if arg.startsWith "-" && arg != "-" then none else some ⟨[arg], [], []⟩
  | arg :: value :: rest =>
    if valueOptions.contains arg then
      (read? rest).map fun a => { a with values := (arg, value) :: a.values }
    else do
      let one ← read? [arg]
      let a ← read? (value :: rest)
      some ⟨one.words ++ a.words, one.values ++ a.values, one.flags ++ a.flags⟩
termination_by args => args.length

def Arguments.value? (a : Arguments) (name : String) : Option String := a.values.lookup name

def natOfDigits? (text : String) : Option Nat :=
  if text.isEmpty || !text.toList.all Char.isDigit then none
  else some (text.toList.foldl (fun n c => 10 * n + (c.toNat - 48)) 0)

/-- A number of workers that fits a 64-bit word. -/
def shardsOf? (text : String) : Option UInt64 := do
  let n ← natOfDigits? text
  if n < UInt64.size then some n.toUInt64 else none

/-- The options that only a replay has. -/
def replayOnly : List String :=
  ["--output", "--stats-csv", "--report-json", "--book-depth-csv", "--shards"]

/-- The options of a command line, `none` for one that makes no sense. -/
def Options.read? (args : List String) : Option Options := do
  let a ← Arguments.read? args
  if ¬ (a.values.map Prod.fst).Nodup ∨ ¬ a.flags.Nodup then none
  let config := a.value? "--config"
  let debug := a.flags.contains "--debug"
  match a.words with
  | ["check-config"] =>
    if a.values.any (fun v => replayOnly.contains v.1) || a.flags.contains "--symbol-stats" then
      none
    else some ⟨.checkConfig, config, debug⟩
  | ["replay", input] => do
    let shards ←
      match a.value? "--shards" with
      | none => some none
      | some text => (shardsOf? text).map some
    some ⟨.replay ⟨input, a.value? "--output", a.value? "--stats-csv", a.value? "--report-json",
      a.value? "--book-depth-csv", shards, a.flags.contains "--symbol-stats"⟩, config, debug⟩
  | _ => none

/-! ### Running a command -/

/-- What a command needs of the world. -/
structure World (m : Type → Type) where
  now : m Timestamp
  /-- The bytes of a file, `none` when it cannot be read. -/
  contents : String → m (Option ByteArray)
  standardInput : m ByteArray
  /-- Writes a file anew; `false` when that cannot be done. -/
  writeFile : String → String → m Bool
  standardOutput : String → m Unit
  standardError : String → m Unit

/-- How a command ends: well, with a failure, or without having been understood. -/
inductive Exit
  | success
  | failure
  | usage
deriving DecidableEq, Repr

def Exit.code : Exit → UInt32
  | success => 0
  | failure => 1
  | usage => 2

variable {m : Type → Type} [Monad m]

def fail (w : World m) (reason : String) : m Exit := do
  w.standardError ("Error: " ++ reason ++ "\n")
  return .failure

/-- The configuration with what the command line says on top. -/
def overridden (c : EngineConfig) (o : ReplayOptions) : EngineConfig :=
  { c with
    shards := o.shards.getD c.shards
    enableInstrumentStatistics := c.enableInstrumentStatistics || o.instrumentStatistics
    enableDepthStatistics := c.enableDepthStatistics || o.bookDepthCsv.isSome }

/-- Writes files one after the other, as far as the first that cannot be written. -/
def writeFiles (w : World m) : List (Option String × String) → m Exit
  | [] => return .success
  | (none, _) :: rest => writeFiles w rest
  | (some path, text) :: rest => do
    if ← w.writeFile path text then writeFiles w rest else fail w ("creating " ++ path)

/-- The updates go out even when the stream broke off; the statistics only at its end. -/
def replay (w : World m) (c : EngineConfig) (o : ReplayOptions) : m Exit := do
  let bytes ← if o.input = "-" then some <$> w.standardInput else w.contents o.input
  match bytes with
  | none => fail w ("opening " ++ o.input)
  | some bytes =>
    let result ← Replay.run w.now c (EventStream.items bytes)
    let written ←
      match o.output with
      | none => do
        w.standardOutput result.text
        pure Exit.success
      | some path => writeFiles w [(some path, result.text)]
    match written, result.ending with
    | .success, .ok report => do
      w.standardError report.metrics.report
      writeFiles w [(o.statsCsv, report.csv), (o.bookDepthCsv, report.depthCsv?.getD ""),
        (o.reportJson, report.metrics.toJson.indented)]
    | .success, .error fault => fail w fault.message
    | exit, _ => return exit

/-- Runs a command. A configuration is checked once more after the command line had its say. -/
def run (w : World m) (o : Options) : m Exit := do
  let config ←
    match o.config with
    | none => pure (.ok EngineConfig.standard)
    | some path => do
      let loaded := EngineConfig.load (← w.contents path)
      pure (loaded.mapError fun fault => fault.message path)
  match config with
  | .error reason => fail w reason
  | .ok config =>
    let config :=
      match o.command with
      | .checkConfig => config
      | .replay options => overridden config options
    match config.validate, o.command with
    | .error _, _ => fail w "invalid configuration"
    | .ok (), .checkConfig => do
      w.standardOutput (config.toJson.indented ++ "\n")
      return .success
    | .ok (), .replay options => replay w config options

/-- Runs a whole command line. -/
def execute (w : World m) (args : List String) : m Exit :=
  match Options.read? args with
  | none => do
    w.standardError "usage: (check-config | replay INPUT) [options]\n"
    return .usage
  | some options => run w options

end TopOfBook.CommandLine
