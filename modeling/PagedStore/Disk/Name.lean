import PagedStore.Failure

set_option autoImplicit false

/-!
File names as the operating system reads them. A name is a path from the store's directory on, or
from the root if it begins with a slash; neither has subdirectories that are known of, so only steps
that lead nowhere (`.` and nothing at all) and steps up (`..`) may stand before a file.
-/

namespace PagedStore

def pathParts : List Char → List (List Char)
  | [] => [[]]
  | '/' :: cs => [] :: pathParts cs
  | c :: cs =>
    match pathParts cs with
    | [] => [[c]]
    | p :: ps => (c :: p) :: ps

/-- The longest part of a path, in bytes. -/
def maxPart : Nat := 255

/-- A whole path stays below this many bytes. -/
def maxPath : Nat := 4096

/-- A part that leads nowhere else. -/
def staysHere (part : List Char) : Bool := part = [] ∨ part = ['.']

def leadsUp (part : List Char) : Bool := part = ['.', '.']

/-- Walks a path to the file it names. `isFile` tells which files there are, `walked` holds what was
gone through, and `up` is what a step up adds to it: nothing at the root. -/
def walk (isFile : String → Bool) (up walked : List Char) :
    List (List Char) → Except IoCause String
  | [] => .error .isDirectory
  | part :: rest =>
    if staysHere part then walk isFile up walked rest
    else if leadsUp part then walk isFile up (walked ++ up) rest
    else
      let name := String.ofList (walked ++ part)
      if rest ≠ [] ∧ rest.all (· = []) then .error .isDirectory
      else if maxPart < (String.ofList part).utf8ByteSize then .error .nameTooLong
      else if rest = [] then .ok name
      else if isFile name then .error .notDirectory
      else .error .notFound

/-- A path from the root takes the place of the directory's. -/
def isAbsolute (name : String) : Bool := name.toList.head? = some '/'

/-- The bytes of the path that a name stands for, below a directory whose own path has so many with
the slash behind it. -/
def pathBytes (directoryBytes : Nat) (name : String) : Nat :=
  if isAbsolute name then name.utf8ByteSize else directoryBytes + name.utf8ByteSize

def resolveName (directoryBytes : Nat) (isFile : String → Bool) (name : String) :
    Except IoCause String :=
  let parts := pathParts name.toList
  if '\x00' ∈ name.toList then .error .nulInName
  else if maxPath ≤ pathBytes directoryBytes name then .error .nameTooLong
  else if isAbsolute name then walk isFile [] ['/'] parts
  else walk isFile ['.', '.', '/'] [] parts

end PagedStore
