import OpenTfMirror.MetadataService

/-!
# Discovery of persisted indices

A starting service walks three levels of directories below its data directory
and takes over every valid index it finds. Files stand at their paths; a
directory exists when some file is below it.
-/

namespace OpenTfMirror.IndexDiscovery

open FileNames FileStore Metadata MetadataService

/-- The files below the data directory. -/
abbrev Files := AList fun _ : Path => Bytes

/-- The indices in memory. -/
abbrev Indices := AList fun _ : ProviderKey => IndexEntry

/-- Something is below the path. -/
def isDir (files : Files) (dir : Path) : Bool :=
  files.keys.any fun path => dir.isPrefixOf path && dir.length < path.length

/-- The first component of the path below the directory. -/
def childName (dir path : Path) : Option String :=
  if dir.isPrefixOf path then (path.drop dir.length).head? else none

/-- `std::fs::read_dir`. -/
def readDir (files : Files) (dir : Path) : Except IoError (List String) :=
  if dir ∈ files then .error (.other "not a directory")
  else if !isDir files dir then .error .notFound
  else .ok (files.keys.filterMap (childName dir)).dedup

/-- `std::fs::read`. -/
def readFile (files : Files) (path : Path) : Except IoError Bytes :=
  match files.lookup path with
  | some bytes => .ok bytes
  | none => if isDir files path then .error (.other "is a directory") else .error .notFound

variable [JsonCrate]

/-- The innermost loop of `discover_indices`. -/
def discoverProvider (files : Files) (root : Path) (hostname providerNamespace : String)
    (indices : Indices) (providerType : String) : Except MetadataError Indices :=
  let dir := root ++ [hostname, providerNamespace, providerType]
  if !validComponent providerType || !isDir files dir then .ok indices
  else
    match readFile files (dir ++ ["index.json"]) with
    | .error .notFound => .ok indices
    | .error error => .error (.io error)
    | .ok bytes =>
      match JsonCrate.indexFromSlice bytes with
      | .error _ => .ok indices
      | .ok entry =>
        match validateRegistryVersions entry.value with
        | .error _ => .ok indices
        | .ok () => .ok (indices.insert ⟨hostname, providerNamespace, providerType⟩ entry)

/-- The loop over the namespaces. -/
def discoverNamespace (files : Files) (root : Path) (hostname : String) (indices : Indices)
    (providerNamespace : String) : Except MetadataError Indices :=
  let dir := root ++ [hostname, providerNamespace]
  if !validComponent providerNamespace || !isDir files dir then .ok indices
  else
    match readDir files dir with
    | .error error => .error (.io error)
    | .ok names => names.foldlM (discoverProvider files root hostname providerNamespace) indices

/-- The loop over the host names. -/
def discoverHostname (files : Files) (root : Path) (allowedRegistries : List String)
    (indices : Indices) (hostname : String) : Except MetadataError Indices :=
  let dir := root ++ [hostname]
  if hostname ∉ allowedRegistries || !isDir files dir then .ok indices
  else
    match readDir files dir with
    | .error error => .error (.io error)
    | .ok names => names.foldlM (discoverNamespace files root hostname) indices

/-- `discover_indices`. -/
def discoverIndices (files : Files) (root : Path) (allowedRegistries : List String) :
    Except MetadataError Indices :=
  match readDir files root with
  | .error .notFound => .ok ∅
  | .error error => .error (.io error)
  | .ok names => names.foldlM (discoverHostname files root allowedRegistries) ∅

end OpenTfMirror.IndexDiscovery
