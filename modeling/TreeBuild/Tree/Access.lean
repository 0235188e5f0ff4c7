import TreeBuild.Fault

/-!
Operations on the files of a tree. Each takes a path, follows it as the system does and either
gives the answer and the changed tree or names the path it was refused at.
-/
namespace TreeBuild.Tree

/-- A refusal that only says that nothing usable is at a path. -/
def isAbsence : Refusal → Bool
  | .noEntry | .notDirectory | .tooManyLinks | .nullCharacter | .unnameable => true
  | _ => false

/-- Whether something that satisfies `test` is at a path. A path that leads nowhere is no fault,
but one that the system cannot even look up is. -/
def probe (tree : Tree) (test : Entry → Bool) (path : Path) : Except FileFault Bool :=
  match tree.status path with
  | .ok entry => .ok (test entry)
  | .error refusal =>
    if isAbsence refusal then .ok false else .error (.refused refusal path.toString)

/-- Whether a file is at a path. -/
def isFile (tree : Tree) (path : Path) : Except FileFault Bool :=
  tree.probe Entry.isFile path

/-- Whether a directory is at a path. -/
def isDirectory (tree : Tree) (path : Path) : Except FileFault Bool :=
  tree.probe Entry.isDirectory path

/-- Whether anything is at a path. -/
def isPresent (tree : Tree) (path : Path) : Except FileFault Bool :=
  tree.probe (fun _ => true) path

/-- The content of the file at a path. -/
def read (tree : Tree) (path : Path) : Except FileFault Text.Bytes :=
  match tree.status path with
  | .error refusal => .error (.refused refusal path.toString)
  | .ok (.file content _) => .ok content
  | .ok _ => .error (.refused .isDirectory path.toString)

/-- The tree with this content in the file at a path. A file that is there keeps its mode; a new
one is not executable. -/
def write (tree : Tree) (path : Path) (content : Text.Bytes) : Except FileFault Tree :=
  match tree.locatePath .creation path with
  | .error refusal => .error (.refused refusal path.toString)
  | .ok location =>
    match tree.get? location with
    | some .directory => .error (.refused .isDirectory path.toString)
    | some (.file _ executable) => .ok (tree.put location (.file content executable))
    | _ => .ok (tree.put location (.file content false))

/-- The tree without the file or link at a path. -/
def unlink (tree : Tree) (path : Path) : Except FileFault Tree :=
  match tree.locatePath .entry path with
  | .error refusal => .error (.refused refusal path.toString)
  | .ok location =>
    match tree.get? location with
    | none => .error (.refused .noEntry path.toString)
    | some .directory => .error (.refused .isDirectory path.toString)
    | some _ => .ok (tree.erase location)

/-- The tree with a new directory at a path. -/
def makeDirectory (tree : Tree) (path : Path) : Except Refusal Tree :=
  match tree.locatePath .entry path with
  | .error refusal => .error refusal
  | .ok location =>
    if (tree.get? location).isSome then .error .alreadyThere
    else .ok (tree.put location .directory)

/-- The tree with a directory at a path, which may be there already. -/
def makeDirectoryIfNone (tree : Tree) (path : Path) : Except FileFault Tree :=
  match tree.makeDirectory path with
  | .ok made => .ok made
  | .error .noEntry => .error (.refused .noEntry path.toString)
  | .error .nullCharacter => .error (.refused .nullCharacter path.toString)
  | .error .unnameable => .error (.refused .unnameable path.toString)
  | .error refusal => do
    if ← tree.isDirectory path then .ok tree else .error (.refused refusal path.toString)

/-- The outcome of a change, and the tree after it: a change that fails leaves the tree as it was. -/
def afterChange (tree : Tree) : Except FileFault Tree → Except FileFault Unit × Tree
  | .ok changed => (.ok (), changed)
  | .error fault => (.error fault, tree)

/-- The tree with a directory at a path and with all that are missing above it. Directories that
were made stay when one below them cannot be made. The recursion goes up the parts of the path. -/
def makeDirectories (tree : Tree) (path : Path) : Except FileFault Unit × Tree :=
  match tree.makeDirectory path with
  | .error .noEntry =>
    if path.parts.isEmpty then (.error (.refused .noEntry path.toString), tree)
    else
      match makeDirectories tree path.parent with
      | (.error fault, above) => (.error fault, above)
      | (.ok (), above) => above.afterChange (above.makeDirectoryIfNone path)
  | _ => tree.afterChange (tree.makeDirectoryIfNone path)
  termination_by path.parts.length
  decreasing_by
    rename_i nonempty
    simp only [Path.parent, List.length_dropLast]
    have : path.parts.length ≠ 0 := by simpa using nonempty
    omega

/-- The tree without a directory and all that is below it. What is below goes first, so the
directory itself may be out of reach when its turn comes. -/
def removeTree (tree : Tree) (path : Path) : Except FileFault Unit × Tree :=
  match tree.locatePath .entry path with
  | .error refusal => (.error (.refused refusal path.toString), tree)
  | .ok location =>
    match tree.get? location with
    | none => (.error (.refused .noEntry path.toString), tree)
    | some (.file _ _) => (.error (.notATree path), tree)
    | some (.link _) =>
      match tree.status path with
      | .error refusal => (.error (.refused refusal path.toString), tree)
      | .ok _ => (.error .linkedTree, tree)
    | some .directory =>
      let emptied := tree.clearBelow location
      match emptied.locatePath .entry path with
      | .error refusal => (.error (.refused refusal path.toString), emptied)
      | .ok again =>
        if path.name = ".." then (.error (.refused .notEmpty path.toString), emptied)
        else (.ok (), emptied.erase again)

/-- Writes a copy over what a path leads to. A path that asks for a directory where there is none is
a fault of its own. -/
def writeCopy (tree : Tree) (target : Path) (content : Text.Bytes) (executable : Bool) :
    Except FileFault Tree :=
  match tree.locatePath .creation target with
  | .ok location =>
    if tree.isDirectoryAt location then .error (.refused .isDirectory target.toString)
    else .ok (tree.put location (.file content executable))
  | .error .isDirectory =>
    .error (if (tree.status target).toOption.isSome then .refused .isDirectory target.toString
      else .missingDirectory target)
  | .error refusal => .error (.refused refusal target.toString)

/-- The refusal of a name that the system never sees. -/
def badName? : Except Refusal Location → Option Refusal
  | .error .nullCharacter => some .nullCharacter
  | .error .unnameable => some .unnameable
  | _ => none

/-- Copies a file with its mode. If the target is a directory, the copy gets the name of the
source in it. -/
def copyFile (tree : Tree) (source target : Path) : Except FileFault Tree :=
  let intoDirectory := (tree.status target).toOption = some .directory
  let (target, shown) :=
    if intoDirectory then
      let inside := target / source.name
      (inside, Text.quoted inside.toString)
    else (target, target.quoted)
  let places := (tree.locatePath .target source, tree.locatePath .target target)
  match badName? places.1, badName? places.2 with
  | some refusal, _ => .error (.refused refusal source.toString)
  | none, some refusal => .error (.refused refusal target.toString)
  | none, none =>
    if places.1.toOption.isSome && places.1.toOption = places.2.toOption
        && (places.1.toOption.bind tree.get?).isSome then
      .error (.sameFile source.quoted shown)
    else
      match tree.status source with
      | .error refusal => .error (.refused refusal source.toString)
      | .ok (.file content executable) => tree.writeCopy target content executable
      | .ok _ => .error (.refused .isDirectory source.toString)

/-- The paths of all entries below a directory whose names satisfy `test`. Hidden names count, and
directories count too; links to directories are not entered. -/
def pathsBelow (tree : Tree) (test : String → Bool) (top : Path) : Except FileFault (List Path) := do
  if ← tree.isDirectory top then
    match tree.locatePath .target top with
    | .error _ => .ok []
    | .ok location =>
      .ok (tree.entries.filterMap fun entry =>
        if isBelow entry.1 location ∧ test (entry.1.getLast?.getD "") then
          some ⟨top.anchor, top.parts ++ entry.1.drop location.length⟩
        else none)
  else .ok []

end TreeBuild.Tree
