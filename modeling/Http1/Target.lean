import Http1.Bytes

/-!
Request targets.

A target is a path with an optional query, the same behind a scheme and an authority, an
authority alone, or an asterisk. A fragment is dropped without a look at it. The path of an
absolute target that names none is `/`.
-/

namespace Http1

inductive Target where
  | asterisk
  | origin (path : Text) (query : Option Text)
  | authority (host : Text)
  | absolute (scheme host path : Text) (query : Option Text)
  deriving DecidableEq, Repr

namespace Target

/-! ### Byte classes -/

def isLetterOrDigit (b : UInt8) : Bool :=
  (48 ≤ b && b ≤ 57) || (65 ≤ b && b ≤ 90) || (97 ≤ b && b ≤ 122)

/-- Letters, digits and `+-.~`. -/
def isSchemeByte (b : UInt8) : Bool :=
  isLetterOrDigit b || b == 43 || b == 45 || b == 46 || b == 126

/-- Letters, digits and ``!$&'()*+,-.:;=@[]_~``; a percent sign has its own rule. -/
def isAuthorityByte (b : UInt8) : Bool :=
  isLetterOrDigit b || b == 33 || b == 36 || (38 ≤ b && b ≤ 46) || b == 58 || b == 59 ||
    b == 61 || b == 64 || b == 91 || b == 93 || b == 95 || b == 126

/-- All visible bytes but ``#<>?` `` and delete, and every byte past ASCII. -/
def isPathByte (b : UInt8) : Bool :=
  b == 0x21 || b == 0x22 || (0x24 ≤ b && b ≤ 0x3B) || b == 0x3D || (0x40 ≤ b && b ≤ 0x5F) ||
    (0x61 ≤ b && b ≤ 0x7E) || 0x80 ≤ b

/-- All visible bytes but `"#<>` and delete, and every byte past ASCII. -/
def isQueryByte (b : UInt8) : Bool :=
  b == 0x21 || (0x24 ≤ b && b ≤ 0x3B) || b == 0x3D || (0x3F ≤ b && b ≤ 0x7E) || 0x80 ≤ b

/-- A slash, a question mark or a number sign ends the authority. -/
def endsAuthority (b : UInt8) : Bool := b == 47 || b == 63 || b == 35

/-! ### Path and query -/

/-- A path from its bytes; an empty one is `/`. -/
def readPath? (b : Bytes) : Option Text :=
  if b.all isPathByte then (if b = [] then some ['/'] else utf8? b) else none

def readQuery? (b : Bytes) : Option Text :=
  if b.all isQueryByte then utf8? b else none

/-- Path and query of the bytes up to the fragment. -/
def readPathAndQuery? (b : Bytes) : Option (Text × Option Text) :=
  let kept := b.takeWhile (· != 35)
  (readPath? (kept.takeWhile (· != 63))).bind fun path =>
    match kept.dropWhile (· != 63) with
    | [] => some (path, none)
    | _ :: query => (readQuery? query).map fun query => (path, some query)

/-! ### Authority -/

/-- What has been seen of an authority: colons and a percent sign since the last `]` or `@`,
the brackets, and whether the last byte is an `@`. -/
structure AuthorityScan where
  colons : Nat := 0
  percent : Bool := false
  opened : Bool := false
  closed : Bool := false
  atEnd : Bool := false

/-- One more byte of an authority; `none` when it may not stand there. -/
def AuthorityScan.step (s : AuthorityScan) (b : UInt8) : Option AuthorityScan :=
  if b = 58 then
    if 8 ≤ s.colons then none else some { s with colons := s.colons + 1, atEnd := false }
  else if b = 91 then
    if s.percent || s.opened then none else some { s with opened := true, atEnd := false }
  else if b = 93 then
    if !s.opened || s.closed then none
    else some { s with closed := true, colons := 0, percent := false, atEnd := false }
  else if b = 64 then some { s with colons := 0, percent := false, atEnd := true }
  else if b = 37 then some { s with percent := true, atEnd := false }
  else if isAuthorityByte b then some { s with atEnd := false }
  else none

/-- The bytes may stop here: brackets are balanced, at most one colon is left for a port, and
neither an `@` nor a percent sign is left over. -/
def AuthorityScan.complete (s : AuthorityScan) : Bool :=
  s.opened == s.closed && s.colons ≤ 1 && !s.atEnd && !s.percent

def isAuthority (b : Bytes) : Bool :=
  match b.foldlM AuthorityScan.step {} with
  | some s => s.complete
  | none => false

/-! ### Scheme -/

/-- The longest scheme. -/
def maxScheme : Nat := 64

/-- Bytes that start with a text, in any case of its letters. -/
def startsFold (p : Text) (b : Bytes) : Bool :=
  (latin1 (b.take p.length)).map Char.toLower == p

/-- The scheme in front of a target and what follows its `://`; `some none` when there is no
scheme, and `none` when there is one that is too long. -/
def splitScheme? (b : Bytes) : Option (Option (Text × Bytes)) :=
  if startsFold "http://".toList b then some (some ("http".toList, b.drop 7))
  else if startsFold "https://".toList b then some (some ("https".toList, b.drop 8))
  else
    let scheme := b.takeWhile isSchemeByte
    match b.dropWhile isSchemeByte with
    | 58 :: 47 :: 47 :: rest =>
      if scheme.length ≤ maxScheme then some (some (latin1 scheme, rest))
      else none
    | _ => some none

/-! ### The whole target -/

/-- The longest target. -/
def maxLength : Nat := 65534

/-- A target that starts with neither a slash nor is an asterisk. -/
def ofAuthority? (b : Bytes) : Option Target :=
  match splitScheme? b with
  | none => none
  | some none => if isAuthority b && !b.any endsAuthority then some (authority (latin1 b)) else none
  | some (some (scheme, rest)) =>
    let host := rest.takeWhile (!endsAuthority ·)
    if host ≠ [] && isAuthority host then
      (readPathAndQuery? (rest.dropWhile (!endsAuthority ·))).map fun (path, query) =>
        absolute scheme (latin1 host) path query
    else none

def ofBytes? (b : Bytes) : Option Target :=
  if maxLength < b.length then none
  else
    match b with
    | [] => none
    | [42] => some asterisk
    | 47 :: _ => (readPathAndQuery? b).map fun (path, query) => origin path query
    | _ => ofAuthority? b

/-! ### Parts and display -/

/-- The path; an authority alone has none. -/
def path : Target → Text
  | asterisk => ['*']
  | origin path _ => path
  | authority _ => []
  | absolute _ _ path _ => path

def query : Target → Option Text
  | asterisk => none
  | origin _ query => query
  | authority _ => none
  | absolute _ _ _ query => query

/-- The path with its query. -/
def pathAndQuery (t : Target) : Text :=
  match t.query with
  | none => t.path
  | some q => t.path ++ '?' :: q

/-- The target as text. -/
def display : Target → Text
  | authority host => host
  | absolute scheme host path query =>
    scheme ++ "://".toList ++ host ++ (absolute scheme host path query).pathAndQuery
  | t => t.pathAndQuery

end Target

end Http1
