import PackageManager.Url.Basic

/-!
# Reading URLs

A URL text is read from the outside in. Control characters and spaces at its ends and line breaks
and tabs anywhere are ignored; what stands before the first colon is the scheme if it has the form
of one; the fragment starts at the first number sign of the rest and the query at the first
question mark before that; what remains is an authority and a path, or a path alone. The segments
`.` and `..` are taken out of a path while it is read.

`Url.parse` reads a text that stands for itself, `Url.join` one that stands where another URL is
known, from which the parts that it leaves out are taken.
-/

namespace PackageManager.Url

/-! ## Paths -/

/-- Whether a character separates segments. -/
def isSlash (special : Bool) (c : Char) : Bool := c = '/' || (special && c = '\\')

/-- Whether a segment stands for the directory itself. -/
def isDot (s : List Char) : Bool :=
  let s := String.ofList (s.map Char.toLower)
  s = "." || s = "%2e"

/-- Whether a segment stands for the directory above. -/
def isDotDot (s : List Char) : Bool :=
  let s := String.ofList (s.map Char.toLower)
  s = ".." || s = ".%2e" || s = "%2e." || s = "%2e%2e"

/-- Whether a segment is a drive letter and a colon, or a bar where `bar` allows it. -/
def isDrive (bar : Bool) : List Char → Bool
  | [d, c] => d.isAlpha && (c = ':' || (bar && c = '|'))
  | _ => false

/-- Whether a text starts with a drive in either spelling, which ends where a slash or a backslash
stands. -/
def startsWithDrive (cs : List Char) : Bool :=
  isDrive true (cs.takeWhile fun c => !isSlash true c)

/-- The path to which `..` leads. It does not lead above a drive, whatever the scheme is. -/
def above (path : List String) : List String :=
  match path.getLast? with
  | some last => if startsWithDrive last.toList then path else path.dropLast
  | none => path

/-- The path of the directory that holds a file. A drive with a colon is its own directory. -/
def directoryOf (path : List String) : List String :=
  match path.getLast? with
  | some last => if isDrive false last.toList then path else path.dropLast
  | none => path

/-- The path after one more segment of the text. A dot segment at the end of the text leaves the
path open for more, and a drive at the beginning of a file path is written with a colon. -/
def addSegment (isFile isLast : Bool) (path : List String) (segment : List Char) : List String :=
  let open_ := fun p => if isLast then p ++ [""] else p
  if isDotDot segment then open_ (above path)
  else if isDot segment then open_ path
  else if isFile && path.isEmpty && isDrive true segment then
    path ++ [String.ofList (segment.take 1 ++ [':'])]
  else path ++ [String.ofList (percentEncode inPathSet segment)]

/-- The path after all segments of the text. -/
def addSegments (isFile : Bool) (path : List String) : List (List Char) → List String
  | [] => path
  | [s] => addSegment isFile true path s
  | s :: t :: rest => addSegments isFile (addSegment isFile false path s) (t :: rest)

/-- The segments of a text, which slashes separate and, in a special scheme, backslashes too. -/
def splitSegments (special : Bool) (cs : List Char) : List (List Char) :=
  (if special then cs.map fun c => if c = '\\' then '/' else c else cs).splitOn '/'

/-- A file path has no empty segment before its first name. -/
def withoutLeadingEmpty (path : List String) : List String :=
  match path.dropWhile (· = "") with
  | [] => [""]
  | p :: ps => p :: ps

/-- The path that a text adds to the beginning of another one, in any scheme but that of files. -/
def extendPath (scheme : String) (path : List String) (cs : List Char) : List String :=
  addSegments false path (splitSegments (isSpecialScheme scheme) cs)

/-- The file path that a text adds to the beginning of another one. -/
def extendFilePath (path : List String) (cs : List Char) : List String :=
  withoutLeadingEmpty (addSegments true path (splitSegments true cs))

/-- The path of a text that follows an authority or a scheme. Special schemes always have one. -/
def readPath (scheme : String) (cs : List Char) : List String :=
  let special := isSpecialScheme scheme
  match cs with
  | [] => if special then [""] else []
  | c :: rest => extendPath scheme [] (if isSlash special c then rest else c :: rest)

/-! ## Authorities -/

/-- The user name and the password before the last `@`. An empty password is as good as none. -/
def readLogin (cs : List Char) : String × Option String :=
  let encode := fun cs => String.ofList (percentEncode inUserSet cs)
  match Text.cutFirst ':' cs with
  | some (user, []) => (encode user, none)
  | some (user, password) => (encode user, some (encode password))
  | none => (encode cs, none)

/-- The parts of a host text before and after the first colon outside brackets. -/
def cutPort (inBrackets : Bool) : List Char → List Char × Option (List Char)
  | [] => ([], none)
  | c :: cs =>
    if c = ':' ∧ !inBrackets then ([], some cs)
    else
      let inBrackets := if c = '[' then true else if c = ']' then false else inBrackets
      let (host, port) := cutPort inBrackets cs
      (c :: host, port)

/-- The port that a text spells, unless it is the default one, and what follows it: a backslash
ends a port in any scheme. -/
def readPort (scheme : String) (cs : List Char) : Except Flaw (Option Nat × List Char) :=
  let digits := cs.takeWhile Char.isDigit
  let rest := cs.dropWhile Char.isDigit
  let n := Text.digitsValue digits
  if digits ≠ [] ∧ UInt16.size ≤ n then .error .invalidPort
  else
    match rest with
    | [] => .ok (if digits = [] ∨ some n = defaultPort scheme then none else some n, [])
    | c :: _ =>
      if c = '\\' then
        .ok (if digits = [] ∨ some n = defaultPort scheme then none else some n, rest)
      else .error .invalidPort

/-- The authority that a text spells, and what the port leaves over for the path. -/
def readAuthority (scheme : String) (cs : List Char) (pathFollows : Bool) :
    Except Flaw (Authority × List Char) := do
  let (login?, hostPort) :=
    match Text.cutLast '@' cs with
    | some (login, rest) => (some login, rest)
    | none => (none, cs)
  if login? = some [] ∧ hostPort = [] ∧ pathFollows then throw .emptyHost
  let (user, password) := readLogin (login?.getD [])
  let (hostText, port?) := cutPort false hostPort
  if isSpecialScheme scheme ∧ hostText.isEmpty then throw .emptyHost
  let host ← if isSpecialScheme scheme then webHost hostText else opaqueHost hostText
  if hostText.isEmpty ∧ port?.isSome then throw .emptyHost
  let (port, left) ←
    match port? with
    | some port => readPort scheme port
    | none => .ok (none, [])
  if hostText.isEmpty ∧ (user ≠ "" ∨ password.isSome) then throw .emptyHost
  return (⟨user, password, host, port⟩, left)

/-! ## Whole texts -/

/-- The ends of the text that are not part of it, and the line breaks and tabs within. -/
def clean (cs : List Char) : List Char :=
  let outer := fun c : Char => decide (c.toNat ≤ 0x20)
  let trimmed := ((cs.dropWhile outer).reverse.dropWhile outer).reverse
  trimmed.filter fun c => c ≠ '\t' ∧ c ≠ '\n' ∧ c ≠ '\r'

/-- The scheme at the beginning of a text, in lower case, and what follows its colon. -/
def cutScheme (cs : List Char) : Option (String × List Char) :=
  match Text.cutFirst ':' cs with
  | some (first :: scheme, rest) =>
    if first.isAlpha ∧ scheme.all fun c => c.isAlphanum || ['+', '-', '.'].contains c then
      some (String.ofList ((first :: scheme).map Char.toLower), rest)
    else none
  | _ => none

/-- A text without scheme in its parts. -/
structure Reference where
  /-- What stands before the query. -/
  body : List Char
  /-- What stands after the first question mark, if there is one. -/
  query : Option (List Char)
  /-- What stands after the first number sign, if there is one. -/
  fragment : Option (List Char)

/-- The parts of a text without scheme. -/
def Reference.ofChars (cs : List Char) : Reference :=
  let (front, fragment) :=
    match Text.cutFirst '#' cs with
    | some (front, fragment) => (front, some fragment)
    | none => (cs, none)
  match Text.cutFirst '?' front with
  | some (body, query) => ⟨body, some query, fragment⟩
  | none => ⟨front, none, fragment⟩

/-- The written form of the query of a URL with the given scheme. -/
def Reference.queryText (r : Reference) (scheme : String) : Option String :=
  r.query.map fun q =>
    let set := if isSpecialScheme scheme then inSpecialQuerySet else inQuerySet
    String.ofList (percentEncode set q)

/-- The written form of the fragment. -/
def Reference.fragmentText (r : Reference) : Option String :=
  r.fragment.map fun f => String.ofList (percentEncode inFragmentSet f)

/-- The URL that consists of the given parts and the query and fragment of a reference. -/
def Reference.complete (r : Reference) (scheme : String) (authority : Option Authority)
    (path : Path) : Url :=
  { scheme, authority, path, query := r.queryText scheme, fragment := r.fragmentText }

/-- A URL whose authority starts the text. -/
def afterSlashes (scheme : String) (r : Reference) (body : List Char) : Except Flaw Url := do
  let ends := fun c => !isSlash (isSpecialScheme scheme) c
  let rest := body.dropWhile ends
  let follows := !rest.isEmpty || r.query.isSome || r.fragment.isSome
  let (authority, left) ← readAuthority scheme (body.takeWhile ends) follows
  return r.complete scheme (some authority) (.segments (readPath scheme (left ++ rest)))

/-- The host of a file URL; the local host is as good as none. -/
def fileHost (cs : List Char) : Except Flaw Host :=
  if cs.isEmpty then .ok (.name "")
  else (webHost cs).map fun h => if h = .name "localhost" then .name "" else h

/-- A file URL. -/
def fileUrl (r : Reference) (host : Host) (path : List String) : Url :=
  r.complete "file" (some { host }) (.segments path)

/-- A file URL with what follows the place of its host. A drive that comes first displaces the host.
Where there is no host, an empty segment stands before the first slash, and so a drive after that
slash does not come first. -/
def hostedFileUrl (r : Reference) (host : Host) (cs : List Char) : Url :=
  if host = .name "" then fileUrl r host (extendFilePath [] cs)
  else
    let path := addSegments true [] (splitSegments true (cs.drop 1))
    let displaced := path.head?.any fun first => isDrive false first.toList
    fileUrl r (if displaced then .name "" else host) (withoutLeadingEmpty path)

/-- A reference that starts with the scheme `file`, or stands where a file URL is known. -/
def readFile (base? : Option Url) (r : Reference) : Except Flaw Url :=
  let baseHost := ((base?.bind Url.authority).map Authority.host).getD (.name "")
  let basePath :=
    match base?.map Url.path with
    | some (.segments l) => l
    | _ => []
  match r.body with
  | a :: b :: rest =>
    if isSlash true a ∧ isSlash true b then do
      let host := rest.takeWhile fun c => !isSlash true c
      if isDrive true host then
        return fileUrl r (.name "") (extendFilePath [] rest)
      let host ← fileHost host
      return hostedFileUrl r host (rest.dropWhile fun c => !isSlash true c)
    else .ok (single a (b :: rest) baseHost basePath)
  | [a] => .ok (single a [] baseHost basePath)
  | [] =>
    .ok <|
      match base? with
      | none => fileUrl r (.name "") [""]
      | some base =>
        { r.complete "file" base.authority base.path with
          query := if r.query.isSome then r.queryText "file" else base.query }
where
  /-- A reference that does not start with two slashes. -/
  single (a : Char) (rest : List Char) (baseHost : Host) (basePath : List String) : Url :=
    if isSlash true a then
      if startsWithDrive rest then fileUrl r (.name "") (extendFilePath [] rest)
      else
        match basePath with
        | first :: _ =>
          if isDrive false first.toList then
            fileUrl r (.name "") (extendFilePath [first] rest)
          else fileUrl r baseHost (extendFilePath [] rest)
        | [] => fileUrl r baseHost (extendFilePath [] rest)
    else if startsWithDrive (a :: rest) then
      fileUrl r (.name "") (extendFilePath [] (a :: rest))
    else
      fileUrl r baseHost (extendFilePath (directoryOf basePath) (a :: rest))

/-- A reference that stands where a URL with a hierarchy other than a file URL is known. -/
def readRelative (base : Url) (r : Reference) : Except Flaw Url :=
  let basePath :=
    match base.path with
    | .segments l => l
    | .opaqueText _ => []
  match r.body with
  | [] =>
    .ok { r.complete base.scheme base.authority base.path with
      query := if r.query.isSome then r.queryText base.scheme else base.query }
  | a :: rest =>
    if isSlash true a then
      match rest with
      | b :: rest' =>
        if isSlash true b then
          if a = '/' ∧ b = '/' then afterSlashes base.scheme r rest'
          else afterSlashes base.scheme r (rest'.dropWhile (isSlash true))
        else
          .ok (r.complete base.scheme base.authority
            (.segments (extendPath base.scheme [] rest)))
      | [] => .ok (r.complete base.scheme base.authority (.segments (extendPath base.scheme [] [])))
    else
      .ok (r.complete base.scheme base.authority
        (.segments (extendPath base.scheme basePath.dropLast (a :: rest))))

/-- A text that starts with a scheme. -/
def readAbsolute (base? : Option Url) (scheme : String) (rest : List Char) : Except Flaw Url :=
  let r := Reference.ofChars rest
  if scheme = "file" then readFile (base?.filter fun b => b.scheme = "file") r
  else if isSpecialScheme scheme then
    let slashes := r.body.takeWhile (isSlash true)
    match base?.filter fun b => b.scheme = scheme ∧ slashes.length < 2 with
    | some base => readRelative base r
    | none => afterSlashes scheme r (r.body.dropWhile (isSlash true))
  else
    match r.body with
    | '/' :: '/' :: body => afterSlashes scheme r body
    | '/' :: _ => .ok (r.complete scheme none (.segments (readPath scheme r.body)))
    | body =>
      .ok (r.complete scheme none (.opaqueText (String.ofList (percentEncode isControl body))))

/-- The URL that a text stands for where another URL may be known. -/
def read (base? : Option Url) (s : String) : Except Flaw Url :=
  let cs := clean s.toList
  match cutScheme cs with
  | some (scheme, rest) => readAbsolute base? scheme rest
  | none =>
    let r := Reference.ofChars cs
    match base? with
    | none => .error .relativeWithoutBase
    | some base =>
      if cs.head? = some '#' then
        .ok { base with fragment := r.fragmentText }
      else if base.isOpaque then .error .relativeToOpaque
      else if base.scheme = "file" then readFile (some base) r
      else readRelative base r

/-- The URL that a text spells. -/
def parse (s : String) : Except Flaw Url := read none s

/-- The URL that a text stands for where `base` is known. -/
def join (base : Url) (s : String) : Except Flaw Url := read (some base) s

end PackageManager.Url
