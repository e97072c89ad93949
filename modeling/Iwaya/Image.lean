import Iwaya.Run.Calls

/-!
# Preparing the proxy image

An image whose tag names the running binary is reused if the runtime has it, and built
from a temporary context otherwise. That the runtime does not have it is an answer, not
a failure. The context directory removes itself when the build is over, whatever became
of it.
-/

namespace Iwaya

open Text Effects

def ProxyImageError.display : ProxyImageError → Str
  | .exe source => "cannot read the running iwaya binary: ".toList ++ source
  | .maps source => "cannot list the loaded shared objects: ".toList ++ source
  | .unsupportedExecutable =>
    "the running iwaya binary is not an ELF64 little-endian executable".toList
  | .material path source =>
    "cannot read proxy image material '".toList ++ path ++ "': ".toList ++ source
  | .tempDir none =>
    "cannot create the proxy image build context: no usable OS entropy source".toList
  | .tempDir (some source) => "cannot create the proxy image build context: ".toList ++ source
  | .context source => "cannot assemble the proxy image build context: ".toList ++ source
  | .runtimeStart runtime source =>
    "cannot start runtime '".toList ++ runtime ++ "': ".toList ++ source
  | .buildFailed status stderr =>
    "the proxy image build failed (".toList ++ status ++ "): ".toList ++ stderr

/-- The version of the program. -/
def packageVersion : Str := "0.0.1".toList

/-- The tag: the version, and the first six bytes of the digest of the recipe and of
every file of the image. -/
def imageTag (digest : Vector UInt8 32) : Str :=
  "iwaya-proxy:v".toList ++ packageVersion ++ "-".toList ++ hex (digest.toList.take 6)

def inspectCommand (runtime tag : Str) : Command where
  program := runtime
  args := ["image".toList, "inspect".toList, tag]

def buildCommand (runtime tag context : Str) : Command where
  program := runtime
  args := ["build".toList, "--tag".toList, tag, context]

/-- A name joined to a directory. -/
def joinPath (directory name : Str) : Str :=
  if directory = [] ∨ directory.getLast? = some '/' then directory ++ name
  else directory ++ '/' :: name

/-- Whether the runtime has an image under this tag. -/
def imageExists (runtime tag : Str) : Step ProxyImageError Bool := do
  let command := inspectCommand runtime tag
  let status ← spawning command (call .imageInspect command)
  let status ← attempt (ProxyImageError.runtimeStart runtime) status
  return status.success

/-- `TempContext::create`: the path of a fresh directory. -/
def createTempContext (tempDir : Str) : Step ProxyImageError Str := do
  let random ← call (.entropy 8) ()
  let random ← attempt (fun _ => ProxyImageError.tempDir none) random
  let path := joinPath tempDir ("iwaya-proxy-image-".toList ++ hex random.toList)
  let created ← call .contextCreate path
  attempt (fun source => ProxyImageError.tempDir (some source)) created
  return path

def writeBuildContext (path : Str) : Step ProxyImageError Unit := do
  let written ← call .contextWrite path
  attempt ProxyImageError.context written

def buildImage (runtime tag context : Str) : Step ProxyImageError Unit := do
  let command := buildCommand runtime tag context
  let output ← spawning command (call .imageBuild command)
  let output ← attempt (ProxyImageError.runtimeStart runtime) output
  giveUpIf (output.status.success = false)
    (.buildFailed output.status.display (trimEnd output.stderr))

/-- **An image matching the running binary**, and its tag. -/
def ensureProxyImage (tempDir runtime : Str) : Step ProxyImageError Str := do
  let material ← call .material ()
  Prog.ofExcept material
  let digest ← call .materialDigest ()
  let digest ← Prog.ofExcept digest
  let tag := imageTag digest
  if ← imageExists runtime tag then
    return tag
  else
    -- the directory is removed on every way out of the build
    let context ← createTempContext tempDir
    (do
      writeBuildContext context
      buildImage runtime tag context
      return tag).scope (call .contextRemove context)

end Iwaya
