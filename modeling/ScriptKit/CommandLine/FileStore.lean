import ScriptKit.CommandLine.Run

namespace ScriptKit.CommandLine

/-- Surroundings that consist of a few files and a standard input. A file is told by the parts of
the one way to it from the root, for there are no links. Folders are there as far as files lie in
them, and so is the one in which the program runs. -/
structure FileStore where
  files : List (List String × String)
  folder : List String := []
  input : String := ""
  /-- Whether standard input is a terminal. -/
  isTerminal : Bool := false

/-- What a path leads to. -/
inductive Target where
  | file (path : List String)
  | folder
  /-- There is nothing yet, but a file could be put there. -/
  | free (path : List String)
  | nothing
  /-- A part of the path before its end is a file. -/
  | behindFile

namespace FileStore

def isFile (store : FileStore) (path : List String) : Bool :=
  store.files.any (·.1 == path)

def isFolder (store : FileStore) (path : List String) : Bool :=
  path.isPrefixOf store.folder ||
    store.files.any fun (name, _) => path.isPrefixOf name && path != name

/-- Follows the parts of a path, from a folder. Above the root there is the root again. -/
def follow (store : FileStore) (folder : List String) : List String → Target
  | [] => .folder
  | part :: rest =>
    if part = "" ∨ part = "." then follow store folder rest
    else if part = ".." then follow store folder.dropLast rest
    else
      let path := folder ++ [part]
      if store.isFolder path then follow store path rest
      else if store.isFile path then if rest.isEmpty then .file path else .behindFile
      else if rest.isEmpty then .free path
      else .nothing

/-- Whether a path ends with a slash, and so can only lead to a folder. -/
def wantsFolder (path : String) : Bool := path.toList.getLast? == some '/'

/-- The folder from which a path is followed. -/
def start (store : FileStore) (path : String) : List String :=
  if Path.isAbsolute path then [] else store.folder

/-- What a path leads to, slashes at its end apart. -/
def locate (store : FileStore) (path : String) : Target :=
  match ((Path.split path).reverse.dropWhile (· == "")).reverse with
  | [] => if path = "" then .nothing else .folder
  | parts => store.follow (store.start path) parts

def notFound : FileFault := .refused "No such file or directory" 2

def notAFolder : FileFault := .refused "Not a directory" 20

def isAFolder : FileFault := .refused "Is a directory" 21

def read (store : FileStore) (path : String) : Except FileFault String :=
  match store.locate path with
  | .file name =>
    if wantsFolder path then .error notAFolder else .ok ((store.files.lookup name).getD "")
  | .folder => .error isAFolder
  | .free _ | .nothing => .error notFound
  | .behindFile => .error notAFolder

/-- The store with a file put into it. -/
def put (store : FileStore) (path : List String) (content : String) : FileStore :=
  { store with files := (path, content) :: store.files.filter (·.1 != path) }

def write (store : FileStore) (path content : String) : Except FileFault FileStore :=
  match store.locate path with
  | .file name | .free name =>
    if wantsFolder path then .error isAFolder else .ok (store.put name content)
  | .folder => .error isAFolder
  | .nothing => .error notFound
  | .behindFile => .error notAFolder

/-- Runs the program on a store. -/
def host : Host (StateM FileStore) where
  readFile path := do pure ((← get).read path)
  writeFile path content := do
    match (← get).write path content with
    | .ok store => do set store; pure (.ok ())
    | .error fault => pure (.error fault)
  readInput := do pure (.ok (← get).input)
  isTerminal := do pure (← get).isTerminal

end FileStore

/-- What the program prints when it runs on a store, and the store that it leaves. -/
def runOn (store : FileStore) (args : List String) : Outcome × FileStore :=
  (run FileStore.host args).run store

end ScriptKit.CommandLine
