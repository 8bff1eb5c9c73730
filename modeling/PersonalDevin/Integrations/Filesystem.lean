import PersonalDevin.Lib.Paths
import PersonalDevin.Integrations.Manager

/-!
# The file system provider

`FilesystemIntegration` over a file system with symbolic links. A call acts on the whole state at once;
what a call can fail with is what the state makes it fail with, so full disks and missing permissions
are left out, and of the messages of the system only the place they go to is kept.
-/

namespace PersonalDevin.Integrations

open Lib
open Planning.DependencyGraph (sorted)

abbrev Disk := FileSystem ByteArray

/-- What the system has to say about a failure, and the time. -/
structure Platform where
  osError : Errno → PathName → String
  loopError : PathName → String
  decodeError : ByteArray → String
  now : String

structure FilesystemIntegration where
  platform : Platform
  cwd : Location
  root : Option Location

/-! ### Paths as texts -/

/-- `Path(s)`. -/
def parsePath (s : String) : PathName where
  absolute := s.toList.head? = some '/'
  names := ((s.toList.splitOn '/').filter fun part => part ≠ [] ∧ part ≠ ['.']).map String.ofList

/-- `str(path)`. -/
def pathText (path : PathName) : String :=
  if path.absolute then "/" ++ "/".intercalate path.names
  else if path.names = [] then "." else "/".intercalate path.names

/-- `repr(path)`. -/
def pathRepr (path : PathName) : String :=
  "PosixPath(" ++ Value.strRepr (pathText path) ++ ")"

/-! ### Texts as bytes -/

/-- The ends of lines as a text file is read. -/
def universalNewlines : List Char → List Char
  | '\r' :: '\n' :: rest => '\n' :: universalNewlines rest
  | '\r' :: rest => '\n' :: universalNewlines rest
  | c :: rest => c :: universalNewlines rest
  | [] => []

/-- A text as it is read back. -/
def asRead (content : String) : String := String.ofList (universalNewlines content.toList)

namespace FilesystemIntegration

def allowedActions : List String := ["read", "write", "list"]

/-- `path`, or `self._root / path`. -/
def anchored (root : Location) (path : PathName) : PathName :=
  if path.absolute then path else ⟨true, root ++ path.names⟩

def enforceRoot (self : FilesystemIntegration) (path : PathName) (disk : Disk) :
    Except IntegrationFailure PathName :=
  match self.root with
  | none => .ok path
  | some root =>
      match disk.resolve self.cwd (anchored root path) with
      | none => .error (.other (self.platform.loopError (anchored root path)))
      | some resolved =>
          if root.isPrefixOf resolved then .ok (FileSystem.pathTo resolved)
          else
            .error (.execution ("path traversal blocked: " ++ pathRepr path
              ++ " resolves outside root " ++ pathText (FileSystem.pathTo root)))

def read (self : FilesystemIntegration) (path : PathName) (disk : Disk) :
    Except IntegrationFailure Fields :=
  if (disk.stat self.cwd path).isNone then
    .error (.execution ("path does not exist: " ++ pathText path))
  else if !disk.isFile self.cwd path then
    .error (.execution ("path is not a file: " ++ pathText path))
  else
    match disk.readFile self.cwd path with
    | .error errno =>
        .error (.execution ("failed to read file: " ++ self.platform.osError errno path))
    | .ok bytes =>
        match String.fromUTF8? bytes with
        | none => .error (.other (self.platform.decodeError bytes))
        | some content =>
            .ok [("action", .str "read"), ("path", .str (pathText path)),
              ("content", .str (asRead content)), ("size_bytes", .int bytes.size)]

def write (self : FilesystemIntegration) (path : PathName) (payload : Fields) (disk : Disk) :
    Except IntegrationFailure Fields × Disk :=
  match payload.get? "content" with
  | some (.str content) =>
      match disk.mkdirParents self.cwd path.absolute path.names.reverse.tail with
      | (.error errno, disk) =>
          (.error (.execution ("failed to write file: " ++ self.platform.osError errno path)), disk)
      | (.ok (), disk) =>
          match disk.writeFile self.cwd path content.toUTF8 with
          | .error errno =>
              (.error (.execution ("failed to write file: " ++ self.platform.osError errno path)),
                disk)
          | .ok disk =>
              (.ok [("action", .str "write"), ("path", .str (pathText path)),
                ("size_bytes", .int content.toUTF8.size)], disk)
  | _ => (.error (.execution "payload.content must be a string for 'write' action"), disk)

def list (self : FilesystemIntegration) (path : PathName) (disk : Disk) :
    Except IntegrationFailure Fields :=
  if (disk.stat self.cwd path).isNone then
    .error (.execution ("path does not exist: " ++ pathText path))
  else if !disk.isDir self.cwd path then
    .error (.execution ("path is not a directory: " ++ pathText path))
  else
    match disk.listDir self.cwd path with
    | .error errno =>
        .error (.execution ("failed to list directory: " ++ self.platform.osError errno path))
    | .ok names =>
        .ok [("action", .str "list"), ("path", .str (pathText path)),
          ("entries", .list ((sorted names).map .str)), ("count", .int names.length)]

def respond (self : FilesystemIntegration) (request : IntegrationRequest) (action : String)
    (path : PathName) (payload : Fields) : IntegrationResponse where
  id := request.id
  integration := "filesystem"
  payload := payload
  metadata := upsert "timestamp" (.str self.platform.now)
    (upsert "path" (.str (pathText path)) (upsert "action" (.str action) request.metadata))
  timestamp := self.platform.now

def act (self : FilesystemIntegration) (request : IntegrationRequest) (action : String)
    (path : PathName) (disk : Disk) : Except IntegrationFailure Fields × Disk :=
  if action = "read" then (self.read path disk, disk)
  else if action = "write" then self.write path request.payload disk
  else (self.list path disk, disk)

/-- `payload.get("path")`, where it is a text that is not blank. -/
def pathOf (request : IntegrationRequest) : Option PathName :=
  match request.payload.get? "path" with
  | some (.str text) => if strip text = "" then none else some (parsePath text)
  | _ => none

def execute (self : FilesystemIntegration) (request : IntegrationRequest) (disk : Disk) :
    Except IntegrationFailure IntegrationResponse × Disk :=
  match isAllowed allowedActions request.action with
  | .error failure => (.error failure, disk)
  | .ok false =>
      (.error (.execution ("payload.action must be one of " ++ allowedText allowedActions
        ++ ", got: " ++ request.action.pyRepr)), disk)
  | .ok true =>
      match pathOf request with
      | none => (.error (.execution "payload.path must be a non-empty string"), disk)
      | some path =>
          match self.enforceRoot path disk with
          | .error failure => (.error failure, disk)
          | .ok path =>
              match self.act request request.action.pyStr path disk with
              | (.error failure, disk) => (.error failure, disk)
              | (.ok payload, disk) =>
                  (.ok (self.respond request request.action.pyStr path payload), disk)

/-- The constructor: the root is resolved once, when the provider is made. -/
def make (platform : Platform) (cwd : Location) (root : Option String) (disk : Disk) :
    Except IntegrationFailure FilesystemIntegration :=
  match root with
  | none => .ok ⟨platform, cwd, none⟩
  | some root =>
      match disk.resolve cwd (parsePath root) with
      | none => .error (.other (platform.loopError (parsePath root)))
      | some resolved => .ok ⟨platform, cwd, some resolved⟩

def integration (self : FilesystemIntegration) : Integration Disk where
  name := "filesystem"
  allowedActions := allowedActions
  execute := self.execute

end FilesystemIntegration

end PersonalDevin.Integrations
