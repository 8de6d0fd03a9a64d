import MacroAtlas.FileTree.Fault

/-!
# Paths

A `Path` leads from a directory through names to a place in a file tree. It remembers the parts that
it was joined from, because reports show it as the caller spelled it. A part that starts with a
slash replaces everything in front of it.
-/

namespace MacroAtlas

/-- What separates the names of a path. -/
def separator : Char := '/'

/-- The names between the separators of a text; there is one more than there are separators. -/
def splitNames : List Char → List (List Char)
  | [] => [[]]
  | c :: rest =>
    if c = separator then [] :: splitNames rest
    else match splitNames rest with
      | name :: names => (c :: name) :: names
      | [] => [[c]]

/-- A path in a file tree. -/
structure Path where
  /-- The directory from which the path leads, by its names from the top. -/
  start : List String
  /-- How reports show that directory; a relative path does not show it. -/
  label : String
  /-- What was joined to it. -/
  parts : List String
  deriving DecidableEq, Repr

namespace Path

/-- The text leads from the top. -/
def isAbsolute (text : String) : Bool := text.toList.head? = some separator

/-- The path with a part joined to it. -/
def join (p : Path) (part : String) : Path :=
  if isAbsolute part then ⟨[], "", [part]⟩ else { p with parts := p.parts ++ [part] }

/-- A directory under a name of its own. -/
def ofDirectory (start : List String) (label : String) : Path := ⟨start, label, []⟩

/-- The path that a text means in a directory. -/
def ofText (directory : List String) (text : String) : Path := (ofDirectory directory "").join text

/-- Two texts with the separator that they need between them. -/
def joinText (front part : String) : String :=
  if front.isEmpty || front.toList.getLast? = some separator then front ++ part
  else front ++ separator.toString ++ part

/-- The path as it stands in reports. -/
def text (p : Path) : String := p.parts.foldl joinText p.label

/-- The path has no text. -/
def isVoid (p : Path) : Bool := p.label.isEmpty && p.parts.all (·.isEmpty)

/-- The greatest number of bytes in the text of a path. -/
def byteLimit : Nat := 4095

/-- The fault of a path that leads nowhere in any file tree. -/
def fault? (p : Path) : Option SystemFault :=
  if '\x00' ∈ p.text.toList then some .zeroByte
  else if byteLimit < p.text.utf8ByteSize then some .nameTooLong
  else none

/-- The names to follow from the start, one after the other. An empty name stands between two
separators or behind the last one. -/
def names (p : Path) : List String :=
  p.parts.flatMap fun part => (splitNames part.toList).map String.ofList

/-- A name that stays where it is. -/
def isIdle (name : String) : Bool := name.isEmpty || name = "."

/-- The names of the path that lead anywhere, one after the other. -/
def telling (p : Path) : List String := p.names.filter fun name => !isIdle name

/-- What stands behind the last name that leads anywhere. A separator at the end does not count. -/
def trail (p : Path) : List String :=
  ((p.names.reverse.dropWhile (·.isEmpty)).takeWhile isIdle).reverse

/-- The last name of the path that leads anywhere, unless that is the way up. -/
def lastName? (p : Path) : Option String :=
  match p.names.reverse.dropWhile isIdle with
  | [] => none
  | name :: _ => if name = ".." then none else some name

end Path

end MacroAtlas
