import TreeBuild.Glob.Pattern
import TreeBuild.Tree.Access

/-!
Expanding path patterns. The part behind the last slash is matched in every directory that the
part before it expands to. Two stars alone stand for any number of directories, links to
directories included, and hidden names are matched only by a pattern that is hidden itself.
-/
namespace TreeBuild.Glob

/-- A pattern cut at its last slash. Slashes at the end of the first part are dropped unless it has
nothing else. -/
def splitLast (pattern : String) : String × String :=
  let backward := pattern.toList.reverse
  let last := (backward.takeWhile (· ≠ '/')).reverse
  let head := (backward.dropWhile (· ≠ '/')).reverse
  let head := if head.all (· = '/') then head else Text.trimEnd (· = '/') head
  (String.ofList head, String.ofList last)

/-- Two texts joined by one slash; the second one stands alone if it begins with a slash. -/
def joinText (first second : String) : String :=
  if second.toList.head? = some '/' then second
  else if first = "" || first.toList.getLast? = some '/' then first ++ second
  else first ++ "/" ++ second

/-- Two texts joined by a slash unless one of them is empty. -/
def joinNonempty (first second : String) : String :=
  if first = "" then second else if second = "" then first else joinText first second

/-- The pattern for any number of directories. -/
def anyDepth : String := "**"

/-- The names in a directory, or only those of directories. Whatever cannot be listed has no names,
except that a null character in its path is a fault. -/
def namesIn (tree : Tree) (directory : String) (onlyDirectories : Bool) :
    Except FileFault (List String) :=
  match tree.locate .target directory (Tree.systemParts directory) with
  | .error .nullCharacter => .error (.refused .nullCharacter directory)
  | .error _ => .ok []
  | .ok location =>
    if tree.isDirectoryAt location then
      .ok ((tree.children location).filter fun name =>
        !onlyDirectories || tree.statusOfText? (joinText directory name) = some .directory)
    else .ok []

/-- The names below a directory at any depth, hidden ones left out. Every step down makes the path
longer or leads through one more link, so the fuel is never used up. -/
def namesBelow (tree : Tree) (onlyDirectories : Bool) :
    (fuel : Nat) → String → Except FileFault (List String)
  | 0, _ => .ok []
  | fuel + 1, directory => do
    let names ← namesIn tree directory onlyDirectories
    let groups ← (names.filter (!isHidden ·)).mapM fun name => do
      let below ← namesBelow tree onlyDirectories fuel (joinNonempty directory name)
      return name :: below.map (joinNonempty name)
    return groups.flatten

/-- How deep a path can lead before the system refuses it for its links. -/
def depthBound (tree : Tree) : Nat :=
  (tree.entries.length + 1) * (Tree.maxLinks + 1)

/-- The matches of a pattern for the last part in one directory. -/
def matchesIn (tree : Tree) (directory last : String) (onlyDirectories : Bool) :
    Except FileFault (List String) :=
  if !hasMagic last then
    if last = "" then
      .ok (if tree.statusOfText? directory = some .directory then [""] else [])
    else .ok (if (tree.entryOfText? (joinNonempty directory last)).isSome then [last] else [])
  else if last = anyDepth then do
    return "" :: (← namesBelow tree onlyDirectories (depthBound tree) directory)
  else do
    let names ← namesIn tree directory onlyDirectories
    return names.filter fun name => (isHidden last || !isHidden name) && matchName last name

/-- The matches of a pattern read from the directory `root`. The fuel is the length of the
pattern, of which every step takes off a part. -/
def expandFrom (tree : Tree) (root : String) :
    (fuel : Nat) → (onlyDirectories : Bool) → String → Except FileFault (List String)
  | 0, _, _ => .ok []
  | fuel + 1, onlyDirectories, pattern =>
    let (directory, last) := splitLast pattern
    if !hasMagic pattern then
      if last = "" then
        .ok (if tree.statusOfText? (joinNonempty root directory) = some .directory
          then [pattern] else [])
      else .ok (if (tree.entryOfText? (joinNonempty root pattern)).isSome then [pattern] else [])
    else if directory = "" then matchesIn tree root last onlyDirectories
    else do
      let directories ←
        if directory ≠ pattern && hasMagic directory then expandFrom tree root fuel true directory
        else .ok [directory]
      let groups ← directories.mapM fun place => do
        let names ← matchesIn tree (joinNonempty root place) last onlyDirectories
        return names.map (joinText place)
      return groups.flatten

/-- The matches of a pattern read from the directory `root`, in no particular order. The directory
itself is not among them. -/
def expand (tree : Tree) (root pattern : String) : Except FileFault (List String) := do
  let found ← expandFrom tree root (pattern.length + 1) false pattern
  if pattern = "" || anyDepth.toList.isPrefixOf pattern.toList then
    match found with
    | "" :: rest => return rest
    | all => return all
  else return found

end TreeBuild.Glob
