import ChartLift.Cache.Policy
import ChartLift.Digest.Sha256
import ChartLift.Files.Tree
import ChartLift.Log.Basic
import ChartLift.Run.Fault
import ChartLift.Yaml.Content.Datum

/-!
# The cache

A directory that keeps the bytes of templates as they were when they were first met. An entry is
written once: the first bytes that are stored under its name stay, and later readers are given
those.
-/

namespace ChartLift

open Text (Bytes)

/-- A directory of copies, and what they are kept for. -/
structure Cache where
  directory : FilePath
  policy : CachePolicy
  deriving DecidableEq, Inhabited

/-- What came of asking a cache: the files as they are now, what was said, and the bytes. -/
structure Fetched where
  files : FileTree
  notes : List Note
  data : Except RunFault Bytes

namespace Cache

/-- The topic of notes about the cache. -/
def topic : String := "helm_dump::cache"

/-- A name as the name of one file: slashes and dots become underscores. -/
def transliterate (name : String) : String :=
  String.ofList (name.toList.map fun c => if c = '/' ∨ c = '.' then '_' else c)

/-- A short name for bytes: the first sixteen digits of their digest. -/
def contentHash (data : Bytes) : String := String.ofList ((Digest.hex data).take 16)

/-- The path of the entry for a name and its bytes; there is none where nothing is cached. -/
def entry? (cache : Cache) (name : String) (data : Bytes) : Option FilePath :=
  match cache.policy with
  | .off => none
  | .byName => some (cache.directory.join ⟨transliterate name⟩)
  | .byContent => some (cache.directory.join ⟨transliterate name ++ "-" ++ contentHash data⟩)

/-- Whether bytes are worth a copy: they hold one YAML document at most. -/
def isWorthy (data : Bytes) : Bool :=
  match Text.Utf8.decode data with
  | .error _ => false
  | .ok text => (Yaml.Content.onlyDatum? text).isSome

/-- The bytes of an entry that is there. -/
def readEntry (path : FilePath) (files : FileTree) : Except RunFault Bytes :=
  (files.read path).mapError (RunFault.copyUnreadable path)

/-- Writes a new entry, the cache's directory being there. Where somebody else has been faster, the
bytes are those that are there by now. -/
def store (name : String) (path : FilePath) (data : Bytes) (files : FileTree) : Fetched :=
  match files.create path data with
  | .ok files =>
    ⟨files, [⟨.debug, topic, name ++ ": stored " ++ path.text⟩], .ok data⟩
  | .error .alreadyThere => ⟨files, [], readEntry path files⟩
  | .error fault => ⟨files, [], .error (.copyNotMade path fault)⟩

/-- The cached bytes for a name. Where there is no entry yet, the bytes given are stored first. -/
def fetch (cache : Cache) (name : String) (data : Bytes) (files : FileTree) : Fetched :=
  match cache.entry? name data with
  | none => ⟨files, [], .ok data⟩
  | some path =>
    if files.contains path then
      ⟨files, [⟨.debug, topic, name ++ ": hit " ++ path.text⟩], readEntry path files⟩
    else if !isWorthy data then ⟨files, [], .error (.notYaml name)⟩
    else
      match files.makeDirectories cache.directory with
      | .error fault => ⟨files, [], .error (.cacheNotMade cache.directory fault)⟩
      | .ok files => store name path data files

end Cache

end ChartLift
