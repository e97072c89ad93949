import Mathlib.Data.List.AList
import Iwaya.Run.Calls

/-!
# Resolving secrets

A provider is asked in three steps: its access-token command is run, the projects are
listed, and the secrets of the project of the configured name are listed. The list
holds every secret of the project; what was not asked for is dropped in the same pass
that reads it.

The two listings are read by a JSON library (`BwsJson`). Its errors are modelled with
their text, because that text ends up in a diagnostic.
-/

namespace Iwaya

open Text Effects

structure BwsProject where
  id : Str
  name : Str

structure BwsSecret where
  key : Str
  value : Str

/-! ### The JSON library -/

/-- A value found where another was expected. Of a float and of a string, `text` is how
the message shows it. -/
inductive Unexpected where
  | bool (b : Bool)
  | integer (n : ℤ)
  | float (text : Str)
  | str (text : Str)
  | null
  | seq
  | map

/-- The scalar of the document an unexpected value shows. -/
def Unexpected.scalar : Unexpected → Option Str
  | bool b => some (if b then "true".toList else "false".toList)
  | integer n => some (renderInt n)
  | float text => some text
  | str text => some text
  | null | seq | map => none

/-- What was found, with its scalar left out: the text before it and the text after. -/
def Unexpected.frame : Unexpected → Str × Str
  | bool _ => ("boolean `".toList, "`".toList)
  | integer _ => ("integer `".toList, "`".toList)
  | float _ => ("floating point `".toList, "`".toList)
  | str _ => ("string ".toList, [])
  | null => ("null".toList, [])
  | seq => ("sequence".toList, [])
  | map => ("map".toList, [])

/-- Why the library gave up. -/
inductive ErrorCode where
  /-- The text is no JSON, or ends early: a fixed message. -/
  | malformed (message : Str)
  /-- A field is missing or written twice, or a length is wrong: a message naming the
  field or the length. -/
  | shape (message : Str)
  /-- A value of the wrong type. -/
  | invalidType (found : Unexpected) (expected : Str)

/-- An error and where it occurred. -/
structure SerdeError where
  code : ErrorCode
  line : ℕ
  column : ℕ

/-- The message of an error, cut around the scalar of the document it shows. -/
def ErrorCode.pieces : ErrorCode → Str × Option Str × Str
  | .malformed message => (message, none, [])
  | .shape message => (message, none, [])
  | .invalidType found expected =>
    ("invalid type: ".toList ++ found.frame.1, found.scalar,
      found.frame.2 ++ ", expected ".toList ++ expected)

def ErrorCode.display (code : ErrorCode) : Str :=
  code.pieces.1 ++ code.pieces.2.1.getD [] ++ code.pieces.2.2

/-- The text of an error: its message and its position. -/
def SerdeError.display (e : SerdeError) : Str :=
  e.code.display ++ " at line ".toList ++ decimal e.line ++ " column ".toList ++ decimal e.column

/-- The JSON library on the two listings. -/
structure BwsJson where
  projects : List UInt8 → Except SerdeError (List BwsProject)
  secrets : List UInt8 → Except SerdeError (List BwsSecret)

/-! ### Errors -/

inductive ResolveError where
  | acquisitionStart (provider program : Str) (source : IoError)
  | acquisitionFailed (provider program status : Str)
  | acquisitionEmpty (provider program : Str)
  | cliStart (provider : Str) (source : IoError)
  | cliFailed (provider action status stderr : Str)
  | cliOutputUnreadable (provider action message : Str)
  | unknownProject (provider project : Str)
  | unknownSecret (provider project secretName : Str)

def ResolveError.display : ResolveError → Str
  | .acquisitionStart provider program source =>
    "provider '".toList ++ provider ++ "': cannot start access-token command '".toList ++ program ++
      "': ".toList ++ source
  | .acquisitionFailed provider program status =>
    "provider '".toList ++ provider ++ "': access-token command '".toList ++ program ++
      "' failed (".toList ++ status ++ ")".toList
  | .acquisitionEmpty provider program =>
    "provider '".toList ++ provider ++ "': access-token command '".toList ++ program ++
      "' produced an empty value".toList
  | .cliStart provider source =>
    "provider '".toList ++ provider ++ "': cannot start the 'bws' CLI: ".toList ++ source
  | .cliFailed provider action status stderr =>
    "provider '".toList ++ provider ++ "': 'bws' failed to ".toList ++ action ++ " (".toList ++
      status ++ "): ".toList ++ stderr
  | .cliOutputUnreadable provider action message =>
    "provider '".toList ++ provider ++ "': cannot read 'bws' output while trying to ".toList ++
      action ++ ": ".toList ++ message
  | .unknownProject provider project =>
    "provider '".toList ++ provider ++ "': project '".toList ++ project ++
      "' was not found in the BWS account".toList
  | .unknownSecret provider project secretName =>
    "provider '".toList ++ provider ++ "': secret '".toList ++ secretName ++
      "' was not found in project '".toList ++ project ++ "'".toList

/-! ### The access token -/

/-- Exactly one trailing line ending is removed. -/
def stripOneTrailingLineEnding (stdout : Str) : Str :=
  ((stripSuffix "\r\n".toList stdout).orElse fun _ => stripSuffix "\n".toList stdout).getD stdout

/-- The token in the output of the acquisition command. -/
def tokenOf (provider : BwsProvider) (output : Output) : Except ResolveError Str := do
  let program := provider.accessToken.program
  Checks.refuse (output.status.success = false)
    (.acquisitionFailed provider.id program output.status.display)
  match fromUtf8 output.stdout with
  | none => .error (.acquisitionFailed provider.id program "stdout is not valid UTF-8".toList)
  | some stdout =>
    let token := stripOneTrailingLineEnding stdout
    Checks.refuse (token = []) (.acquisitionEmpty provider.id program)
    return token

def acquisitionCommand (provider : BwsProvider) : Command where
  program := provider.accessToken.program
  args := provider.accessToken.args

def acquireAccessToken (provider : BwsProvider) : Step ResolveError Str := do
  let command := acquisitionCommand provider
  let output ← spawning command (call .acquire command)
  let output ←
    attempt (ResolveError.acquisitionStart provider.id provider.accessToken.program) output
  Prog.ofExcept (tokenOf provider output)

/-! ### The listings -/

/-- A `bws` command: the token is set, never inherited. -/
def bwsCommand (token : Str) (args : List Str) : Command where
  program := "bws".toList
  args := args ++ ["--output".toList, "json".toList]
  env := [("BWS_ACCESS_TOKEN".toList, token)]

/-- What is read from the output of a `bws` command. A failure of the command shows at
most the first 200 characters of one line of what it wrote on standard error. -/
def bwsOutput {α : Type} (fromSlice : List UInt8 → Except SerdeError (List α))
    (provider : BwsProvider) (action : Str) (output : Output) : Except ResolveError (List α) := do
  Checks.refuse (output.status.success = false)
    (.cliFailed provider.id action output.status.display
      ((firstLine (trim output.stderr)).take 200))
  -- the library's whole message goes into the error, not only its position
  (fromSlice output.stdout).mapError fun e => .cliOutputUnreadable provider.id action e.display

/-- One `bws` command, started by `start` and read by `fromSlice`. -/
def bwsJson {α : Type} (start : Command → Step ResolveError (Except IoError Output))
    (fromSlice : List UInt8 → Except SerdeError (List α)) (provider : BwsProvider) (token : Str)
    (args : List Str) (action : Str) : Step ResolveError (List α) := do
  let command := bwsCommand token args
  let output ← spawning command (start command)
  let output ← attempt (ResolveError.cliStart provider.id) output
  Prog.ofExcept (bwsOutput fromSlice provider action output)

def listProjects (json : BwsJson) (provider : BwsProvider) (token : Str) :
    Step ResolveError (List BwsProject) :=
  bwsJson (call .projectList) json.projects provider token
    ["project".toList, "list".toList] "list projects".toList

def listSecrets (json : BwsJson) (provider : BwsProvider) (token projectId : Str) :
    Step ResolveError (List BwsSecret) :=
  bwsJson (call .secretList) json.secrets provider token
    ["secret".toList, "list".toList, projectId] "list secrets".toList

/-! ### Resolution -/

/-- The values one provider gave, by name. -/
abbrev Resolved : Type := AList fun _ : SecretName => Str

/-- The project of the configured name. -/
def chooseProject (provider : BwsProvider) (projects : List BwsProject) :
    Except ResolveError BwsProject :=
  match projects.find? fun p => p.name == provider.project with
  | some project => .ok project
  | none => .error (.unknownProject provider.id provider.project)

/-- The requested values: of several secrets of one name the last one stands. -/
def keepRequested (names : List SecretName) (secrets : List BwsSecret) : Resolved :=
  -- what was not asked for is dropped here, in the pass that reads the listing
  (secrets.filter fun s => names.any (· == s.key)).foldl
    (fun values s => values.insert s.key s.value) ∅

/-- Every requested name has a value. -/
def checkComplete (provider : BwsProvider) (names : List SecretName) (values : Resolved) :
    Except ResolveError Unit :=
  Checks.forAll (fun name => Checks.refuse (name ∉ values)
    (.unknownSecret provider.id provider.project name)) names

/-- **Resolution** of the names asked of one provider. -/
def resolve (json : BwsJson) (provider : BwsProvider) (names : List SecretName) :
    Step ResolveError Resolved := do
  let token ← acquireAccessToken provider
  let projects ← listProjects json provider token
  let project ← Prog.ofExcept (chooseProject provider projects)
  let secrets ← listSecrets json provider token project.id
  let values := keepRequested names secrets
  Prog.ofExcept (checkComplete provider names values)
  return values

end Iwaya
