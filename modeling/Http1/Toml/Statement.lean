import Http1.Toml.Moment
import Http1.Toml.Number
import Http1.Toml.Table

/-!
The lines of a document: a key with its value, or a header that says where the keys below it go.

Arrays and tables in braces nest to a fixed depth. A table in braces stands on one line; an array
may take several, with comments between its items.
-/

namespace Http1.Toml

inductive Statement where
  | entry (key : Key) (value : Value)
  | header (key : Key)
  /-- A header that adds a table to those of its name. -/
  | repeated (key : Key)

namespace Reader

/-! ### Keys -/

def isBareKeyChar (c : Char) : Bool := c.isAlphanum || c = '_' || c = '-'

/-- A part of a key: bare, or quoted on one line. -/
def keyPart : Reader Text := do
  match ← peek? with
  | some '"' => quotedLine
  | some '\x27' => quotedLine
  | _ =>
    let name ← takeWhile isBareKeyChar
    if name = [] then failure else pure name

/-- The most parts that a key has. -/
def maxParts : Nat := 79

/-- A key of one part, or of several with dots between them. -/
def key : Reader Key := do
  let part : Reader Text := do
    gap
    let name ← keyPart
    gap
    pure name
  match ← separated part (expect ['.']) with
  | [] => failure
  | first :: more => if more.length < maxParts then pure ⟨first, more⟩ else failure

/-! ### Values -/

def isTokenChar (c : Char) : Bool :=
  c.isAlphanum || c = '_' || c = '+' || c = '-' || c = '.' || c = ':'

/-- A token, and with a date the time of day that stands behind it after a space. -/
def token : Reader Text := fun t =>
  let word := t.takeWhile isTokenChar
  match afterDate? word, t.dropWhile isTokenChar with
  | some [], ' ' :: c :: r =>
    if c.isDigit then
      some (word ++ ' ' :: (c :: r).takeWhile isTokenChar, (c :: r).dropWhile isTokenChar)
    else some (word, ' ' :: c :: r)
  | _, r => some (word, r)

/-- What a token stands for. -/
def valueOfToken? (t : Text) : Option Value :=
  if t = "true".toList then some (.boolean true)
  else if t = "false".toList then some (.boolean false)
  else
    match integer? t with
    | some n => some (.integer n)
    | none => if isFloat t then some .float else if isMoment t then some .moment else none

/-- A value without parts. -/
def single : Reader Value := do
  match ← peek? with
  | some '"' => return .text (← quotedText)
  | some '\x27' => return .text (← quotedText)
  | _ =>
    match valueOfToken? (← token) with
    | some v => pure v
    | none => failure

/-- The text without gaps, line ends and comments in front; `inComment` in the middle of one. -/
def skipFiller (inComment : Bool) : Text → Text
  | '\n' :: r => skipFiller false r
  | '\r' :: '\n' :: r => skipFiller false r
  | c :: r =>
    if inComment then (if isPlain c then skipFiller true r else c :: r)
    else if isGap c then skipFiller false r
    else if c = '#' then skipFiller true r
    else c :: r
  | [] => []

def filler : Reader Unit := fun t => some ((), skipFiller false t)

/-- The items of an array and its closing bracket; a comma may follow the last item. -/
def arrayItems (item : Reader Value) : Reader (List Value) := do
  let padded : Reader Value := do
    filler
    let v ← item
    filler
    pure v
  let items ← separated padded (expect [',']) <|> pure []
  if items ≠ [] then
    expect [','] <|> pure ()
  filler
  expect [']']
  pure items

/-- The entries of a table in braces and the closing brace. -/
def braceEntries (item : Reader Value) : Reader (List (Key × Value)) := do
  let entry : Reader (Key × Value) := do
    let k ← key
    expect ['=']
    gap
    let v ← item
    gap
    pure (k, v)
  let entries ← separated entry (expect [',']) <|> pure []
  gap
  expect ['\x7d']
  pure entries

/-- A value in which arrays and tables in braces nest at most `depth` times. -/
def value (depth : Nat) : Reader Value := do
  match ← peek?, depth with
  | some '[', 0 => failure
  | some '\x7b', 0 => failure
  | some '[', depth + 1 =>
    expect ['[']
    return .array (← arrayItems (value depth))
  | some '\x7b', depth + 1 =>
    expect ['\x7b']
    match Fields.ofEntries? (← braceEntries (value depth)) with
    | some fields => return .table .braces fields
    | none => failure
  | _, _ => single

/-- How deep values nest. -/
def maxDepth : Nat := 79

/-! ### Lines -/

/-- A header; its brackets are written without a space between them. -/
def headerLine : Reader Statement := do
  expect ['[']
  match ← peek? with
  | some '[' =>
    expect ['[']
    let k ← key
    expect [']', ']']
    return .repeated k
  | _ =>
    let k ← key
    expect [']']
    return .header k

def entryLine : Reader Statement := do
  let k ← key
  expect ['=']
  gap
  return .entry k (← value maxDepth)

def comment : Reader Unit := do
  match ← peek? with
  | some '#' => discard (takeWhile isPlain)
  | _ => pure ()

/-- A line with its end: a statement, unless it is empty but for a comment. -/
def line : Reader (Option Statement) := do
  gap
  let s ← match ← peek? with
    | none => pure none
    | some '#' => pure none
    | some '\n' => pure none
    | some '\r' => pure none
    | some '[' => some <$> headerLine
    | some _ => some <$> entryLine
  gap
  comment
  lineEnd
  pure s

end Reader

/-- The statements of a document, which may start with a byte order mark. -/
def statements? (t : Text) : Option (List Statement) :=
  let body := match t with
    | '\ufeff' :: r => r
    | t => t
  (Reader.toEnd Reader.line body).map (·.filterMap id)

end Http1.Toml
