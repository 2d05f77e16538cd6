import SchemaLoom.Watch.Loop

/-!
# The program

Options are read, the configuration is loaded, a session is started and the whole tree is built.
Then the program ends, or it watches; a build that failed then waits for the first change. The
program works on a file system as a value; reading and writing the real one is left to its caller.
-/

namespace SchemaLoom.Program

/-- What is left when the program ends. -/
structure Outcome where
  exitCode : Nat
  files : FileSystem
  log : List Log.Line
  /-- The text for standard output besides the log. -/
  answer : String
  /-- The text for standard error. -/
  complaint : String

/-- What the program does after its first build. -/
inductive Phase where
  | ended (outcome : Outcome)
  | watching (loop : WatchLoop)

def versionText : String := "schemac 0.3.1\n"

def helpLines : List String :=
  ["Compile schema templates into JSON Schema, then watch for changes",
    "",
    "Usage: schemac [OPTIONS]",
    "",
    "Options:",
    "  -r, --root <ROOT>          Project root directory",
    "  -C, --config <CONFIG>      Config file name, relative to the root [default: schemac.toml]",
    "  -s, --src <SRC>            Template source directory (relative to project root)",
    "  -o, --out <OUT>            Output directory (relative to project root)",
    "      --registry <REGISTRY>  Registry file for registry imports",
    "      --docs <DOCS>          Local documentation directory",
    "      --clean                Remove the output directory before building",
    "      --once                 Build once and exit instead of watching",
    "  -h, --help                 Print help",
    "  -V, --version              Print version"]

def helpText : String := "\n".intercalate helpLines ++ "\n"

/-- An option as it is named in complaints. -/
def parameterName (p : CommandLine.Parameter) : String :=
  match CommandLine.longNames.find? fun n => n.2 = .parameter p with
  | some (name, _) => s!"--{name}"
  | none => ""

def flagName (f : CommandLine.Flag) : String :=
  match CommandLine.longNames.find? fun n => n.2 = .flag f with
  | some (name, _) => s!"--{name}"
  | none => ""

def refusalMessage : CommandLine.Refusal → String
  | .unknownArgument argument => s!"unexpected argument `{argument}`"
  | .missingValue p => s!"a value is required for `{parameterName p}`"
  | .repeatedParameter p => s!"`{parameterName p}` is given more than once"
  | .repeatedFlag f => s!"`{flagName f}` is given more than once"
  | .unexpectedValue argument => s!"no value is expected in `{argument}`"

/-- The lines that tell the causes of an error; several ones are numbered. -/
def causeLines (causes : List String) : List String :=
  if causes.length > 1 then
    causes.zipIdx.map fun (cause, i) => let number := toString i; s!"    {number}: {cause}"
  else causes.map fun cause => s!"    {cause}"

/-- An error as the program tells it when it ends. -/
def complaintOf (summary : String) (causes : List String) : String :=
  let told := if causes.isEmpty then [] else ["", "Caused by:"] ++ causeLines causes
  "\n".intercalate (s!"Error: {summary}" :: told) ++ "\n"

/-- The end of a program that did not get to build. -/
def endStopped (files : FileSystem) : CommandLine.Stop → Outcome
  | .help => ⟨0, files, [], helpText, ""⟩
  | .version => ⟨0, files, [], versionText, ""⟩
  | .refused refusal =>
    let reason := refusalMessage refusal
    ⟨2, files, [], "", s!"error: {reason}\n\nFor more information, try '--help'.\n"⟩

/-- The end of a program that builds once. -/
def endBuilt (bench : Workbench) : Except BuildFailure Unit → Outcome
  | .ok () => ⟨0, bench.files, bench.log, "", ""⟩
  | .error failure => ⟨1, bench.files, bench.log, "", complaintOf failure.summary failure.causes⟩

/-- The loop behind a first build. -/
def watchAfter (bench : Workbench) (c : Configuration) : Except BuildFailure Unit → WatchLoop
  | .ok () => .start bench c
  | .error failure => (WatchLoop.start (bench.say "error" failure.message) c).markFailed

/-- The program with its options read. -/
def startWith (options : CommandLine.Options) (files : FileSystem) : Phase :=
  match Configuration.load files options with
  | .error e => .ended ⟨1, files, [], "", complaintOf e.message e.causes⟩
  | .ok c =>
    match c.startSession files with
    | .error failure => .ended ⟨1, files, [], "", complaintOf failure.summary failure.causes⟩
    | .ok bench =>
      let (built, bench) := bench.buildAll c
      if options.once then .ended (endBuilt bench built) else .watching (watchAfter bench c built)

/-- The program up to its end or to the watch loop. -/
def start (arguments : List String) (files : FileSystem) : Phase :=
  match CommandLine.parse arguments with
  | .error stop => .ended (endStopped files stop)
  | .ok options => startWith options files

end SchemaLoom.Program
