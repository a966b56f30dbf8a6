import ModuleDocs.Text.Basic

/-!
# Command line arguments

Arguments are read from left to right: options of the program, the command, and
its options. An option is given as `--name value`, `--name=value`, `-n value`,
`-nvalue` or `-n=value`; short flags may share a dash. The options of the program
may also stand behind the command, where they take precedence. An option is given
at most once on either side.
-/

namespace ModuleDocs

namespace CommandLine

/-- How the listing is written. -/
inductive ListingFormat where
  | yaml
  | json
  deriving DecidableEq, Inhabited

/-- How a check is reported. -/
inductive ReportFormat where
  | text
  | json
  deriving DecidableEq, Inhabited

/-- What the program is asked to do. -/
inductive Command where
  | list (format : ListingFormat) (output : Option Text)
  | update (docs : Text) (version : Option Text) (dryRun : Bool)
  | check (docs : Text) (version : Option Text) (showDiff : Bool) (format : ReportFormat)
  deriving DecidableEq, Inhabited

/-- A command with the options of the program. -/
structure Invocation where
  root : Option Text
  verbose : Bool
  command : Option Command
  deriving DecidableEq, Inhabited

/-- Why no invocation was read. -/
inductive Stop where
  | help
  | version
  | misuse
  deriving DecidableEq

/-! ## Options -/

/-- What an option takes. -/
inductive Taking where
  | nothing
  | anyText
  | someText
  | oneOf (choices : List String)

/-- Whether an option takes a value. -/
def Taking.accepts : Taking → Text → Bool
  | nothing, _ => false
  | anyText, _ => true
  | someText, s => !s.isEmpty
  | oneOf choices, s => choices.any fun c => c.toList = s

/-- An option: its long name, its short one, and what it takes. -/
structure OptionSpec where
  long : String
  short : Option Char
  taking : Taking

/-- The options of the program. -/
def programOptions : List OptionSpec := [
  ⟨"path", some 'p', .someText⟩,
  ⟨"verbose", some 'v', .nothing⟩,
  ⟨"no-color", none, .nothing⟩]

/-- The options of the commands. -/
def commandOptions : List (String × List OptionSpec) := [
  ("list", [
    ⟨"format", none, .oneOf ["yaml", "json"]⟩,
    ⟨"output", some 'o', .someText⟩]),
  ("update", [
    ⟨"docs", none, .someText⟩,
    ⟨"version", none, .anyText⟩,
    ⟨"dry-run", none, .nothing⟩]),
  ("check", [
    ⟨"docs", none, .someText⟩,
    ⟨"version", none, .anyText⟩,
    ⟨"diff", none, .nothing⟩,
    ⟨"format", none, .oneOf ["text", "json"]⟩])]

/-- The options given so far, by their long names. -/
abbrev Given := List (String × Text)

/-- Adds an option that has not been given. -/
def give (given : Given) (spec : OptionSpec) (v : Text) : Except Stop Given :=
  if (given.lookup spec.long).isSome then .error .misuse else .ok (given ++ [(spec.long, v)])

/-- Adds an option with its value. -/
def giveValue (given : Given) (spec : OptionSpec) (v : Text) : Except Stop Given :=
  if spec.taking.accepts v then give given spec v else .error .misuse

/-- Whether an argument is an option and so cannot be the value of one. -/
def isOption (a : Text) : Bool := a.head? == some '-' && a != ['-']

/-- Reads a long option; `next` is the argument behind it. Says whether that was
its value. -/
def longOption (specs : List OptionSpec) (isProgram : Bool) (given : Given) (a : Text)
    (next : Option Text) : Except Stop (Given × Bool) :=
  let (name, attached) := match Text.splitFirst? '=' a with
    | some (name, v) => (name, some v)
    | none => (a, none)
  match specs.find? fun s => s.long.toList = name with
  | none =>
    if attached.isSome then .error .misuse
    else if name = "help".toList then .error .help
    else if isProgram ∧ name = "version".toList then .error .version
    else .error .misuse
  | some spec =>
    match spec.taking, attached, next with
    | .nothing, none, _ => (give given spec []).map fun g => (g, false)
    | .nothing, some _, _ => .error .misuse
    | _, some v, _ => (giveValue given spec v).map fun g => (g, false)
    | _, none, some v =>
      if isOption v then .error .misuse else (giveValue given spec v).map fun g => (g, true)
    | _, none, none => .error .misuse

/-- Reads short options behind one dash. -/
def shortOptions (specs : List OptionSpec) (isProgram : Bool) (given : Given) (next : Option Text) :
    Text → Except Stop (Given × Bool)
  | [] => .ok (given, false)
  | c :: r =>
    match specs.find? fun s => s.short = some c with
    | none =>
      if c = 'h' then .error .help
      else if isProgram ∧ c = 'V' then .error .version
      else .error .misuse
    | some spec =>
      match spec.taking with
      | .nothing => do shortOptions specs isProgram (← give given spec []) next r
      | _ =>
        if r ≠ [] then
          (giveValue given spec ((Text.after? ['='] r).getD r)).map fun g => (g, false)
        else
          match next with
          | some v =>
            if isOption v then .error .misuse
            else (giveValue given spec v).map fun g => (g, true)
          | none => .error .misuse

/-- Reads options up to the first argument that is none; gives that argument and
those behind it. `skip` says that the first argument has been read. -/
def options (specs : List OptionSpec) (isProgram : Bool) :
    Bool → Given → List Text → Except Stop (Given × List Text)
  | _, given, [] => .ok (given, [])
  | true, given, _ :: rest => options specs isProgram false given rest
  | false, given, a :: rest =>
    if a = "--".toList then
      if rest = [] then .ok (given, []) else .error .misuse
    else
      match Text.after? "--".toList a with
      | some name => do
        let (given, used) ← longOption specs isProgram given name rest.head?
        options specs isProgram used given rest
      | none =>
        if isOption a then do
          let (given, used) ← shortOptions specs isProgram given rest.head? (a.drop 1)
          options specs isProgram used given rest
        else .ok (given, a :: rest)

/-! ## Commands -/

/-- The command of a name with its options. -/
def command (name : String) (given : Given) : Except Stop Command :=
  let has (option : String) := (given.lookup option).isSome
  match name with
  | "list" => .ok (.list
      (if given.lookup "format" = some "json".toList then .json else .yaml)
      (given.lookup "output"))
  | "update" =>
    match given.lookup "docs" with
    | some docs => .ok (.update docs (given.lookup "version") (has "dry-run"))
    | none => .error .misuse
  | "check" =>
    match given.lookup "docs" with
    | some docs => .ok (.check docs (given.lookup "version") (has "diff")
        (if given.lookup "format" = some "json".toList then .json else .text))
    | none => .error .misuse
  | _ => .error .misuse

/-- Reads the arguments behind the command `help`: at most one name of a command. -/
def helpFor : List Text → Stop
  | [] => .help
  | [n] =>
    if n = "help".toList ∨ commandOptions.any fun c => c.1.toList = n then .help else .misuse
  | _ => .misuse

/-- Reads an invocation. -/
def parse (args : List Text) : Except Stop Invocation := do
  let (outer, rest) ← options programOptions true false [] args
  match rest with
  | [] => pure ⟨outer.lookup "path", (outer.lookup "verbose").isSome, none⟩
  | name :: rest =>
    if name = "help".toList then throw (helpFor rest)
    match commandOptions.find? fun c => c.1.toList = name with
    | none => throw .misuse
    | some (name, specs) =>
      let (inner, rest) ← options (specs ++ programOptions) false false [] rest
      if rest ≠ [] then throw .misuse
      let command ← command name inner
      pure {
        root := (inner.lookup "path").or (outer.lookup "path")
        verbose := (inner.lookup "verbose").isSome || (outer.lookup "verbose").isSome
        command := some command }

end CommandLine

end ModuleDocs
