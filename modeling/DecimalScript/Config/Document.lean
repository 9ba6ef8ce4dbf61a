import DecimalScript.Config.Spelling
import DecimalScript.Text.Lines

/-!
# Configuration files

The text of a configuration is a mapping with one `key: value` to a line, a list with one `- item`
to a line, or a single value; blank lines and comments are skipped. The lines of a mapping or list
start at one column, and lines that start further right belong to the value or item above them: they
go on with an unquoted value, or they are the value if nothing stands behind its key. Values may be
quoted; unquoted ones are what they are spelled like. A text is read in two steps: first its lines
are laid out as a `Node`, then every value is given its meaning.

The notation has more: several documents in a text, lists and mappings between brackets, quoted
values over several lines, texts of their own lines, keys that are marked, names for values and
references to them, kinds, and mappings that are merged. A text that uses any of it is refused as
unsupported; it is never read as something else. -/

namespace DecimalScript

namespace Document

/-! ### Lines -/

/-- A line that says something, without the blanks in front of it. -/
structure Line where
  /-- The number of blanks in front. -/
  column : Nat
  text : List Char
  /-- The number of blank lines right above. -/
  gap : Nat := 0
  /-- Whether there is a comment on a line between this line and the one above. -/
  apart : Bool := false
  /-- Whether anything stands below, be it a comment. -/
  more : Bool := false

/-- Whether a character may stand in a configuration. -/
def isAllowed (c : Char) : Bool :=
  let n := c.toNat
  n == 0x9 || n == 0xA || n == 0xD || (0x20 ≤ n && n ≤ 0x7E) || n == 0x85 ||
    (0xA0 ≤ n && n ≤ 0xFFFD) || 0x10000 ≤ n

/-- Whether a line ends at a character. -/
def isBreak (c : Char) : Bool :=
  c == '\n' || c == '\u0085' || c == '\u2028' || c == '\u2029'

/-- The rows of a text. -/
def rows : List Char → List (List Char)
  | [] => [[]]
  | c :: rest =>
    match rows rest with
    | row :: others => if isBreak c then [] :: row :: others else (c :: row) :: others
    | [] => [[c]]

/-- The lines of rows that say something, behind `gap` blank lines and perhaps a comment. -/
def linesOf (gap : Nat) (apart : Bool) : List (List Char) → List Line
  | [] => []
  | row :: rest =>
    let text := row.dropWhile (· == ' ')
    match text.head? with
    | none => linesOf (gap + 1) apart rest
    | some '#' => linesOf 0 true rest
    | some _ =>
      let more := rest.any fun below => below.any (· != ' ')
      ⟨row.length - text.length, text, gap, apart, more⟩ :: linesOf 0 false rest

/-- Whether a text ends, or a blank starts it. -/
def opensBlank : List Char → Bool
  | [] => true
  | c :: _ => c == ' ' || c == '\t'

/-- Whether a line at the left edge starts or ends a document or says how documents are written. -/
def Line.isBoundary (line : Line) : Bool :=
  line.column == 0 &&
    match line.text with
    | '-' :: '-' :: '-' :: rest | '.' :: '.' :: '.' :: rest => opensBlank rest
    | '%' :: _ => true
    | _ => false

/-- The lines without the first one if that is three dashes, perhaps with a comment. -/
def withoutOpening : List Line → List Line
  | [] => []
  | line :: lines =>
    let behind := (line.text.drop 3).dropWhile (· == ' ')
    let isOpening := line.text.take 3 == ['-', '-', '-'] && line.isBoundary
    if isOpening && (behind.isEmpty || behind.head? == some '#') then lines else line :: lines

/-- The lines of a text that say something. A mark of the byte order at the start is skipped. -/
def lines (text : List Char) : List Line :=
  let text := Text.unifyNewlines text
  let text := if text.head? = some '\uFEFF' then text.drop 1 else text
  withoutOpening (linesOf 0 false (rows text))

/-! ### Values on a line -/

/-- A value as it is written on a line. -/
inductive Written where
  | plain (text : List Char)
  | quoted (text : List Char)
  | emptyList
  | emptyMapping
  /-- A value of a kind that has a name; no such kind is known. -/
  | named

/-- An unquoted value and what stands behind it. It ends before a colon that a blank or the end
follows, before a tab, and before a number sign behind blanks; `blanks` have been passed since the
last character of the value. -/
def takePlain (blanks : List Char) : List Char → List Char × List Char
  | [] => ([], [])
  | c :: rest =>
    if c = ' ' then takePlain (' ' :: blanks) rest
    else if c = '\t' || (c = ':' && opensBlank rest) || (c = '#' && !blanks.isEmpty) then
      ([], c :: rest)
    else
      let (more, behind) := takePlain [] rest
      (blanks ++ c :: more, behind)

/-- The character that an escape stands for. -/
def escaped? (c : Char) : Option Char :=
  [('0', '\x00'), ('a', '\x07'), ('b', '\x08'), ('t', '\t'), ('n', '\n'), ('v', '\x0b'),
    ('f', '\x0c'), ('r', '\r'), ('e', '\x1b'), (' ', ' '), ('\x22', '\x22'), ('/', '/'),
    ('\\', '\\'), ('N', '\u0085'), ('_', '\u00a0'), ('L', '\u2028'), ('P', '\u2029')].lookup c

/-- How many hexadecimal digits follow the letter of an escape by number. -/
def escapeWidth? (c : Char) : Option Nat :=
  [('x', 2), ('u', 4), ('U', 8)].lookup c

/-- The rest of a text in double quotes, and what stands behind it. While an escape by number is
being read, `pending` has the number of digits to come and the number so far. -/
def takeDouble (pending : Option (Nat × Nat)) : List Char → Option (List Char × List Char)
  | [] => none
  | '\\' :: c :: rest =>
    match pending, escapeWidth? c with
    | some _, _ => none
    | none, some width => takeDouble (some (width, 0)) rest
    | none, none => do
      let (more, behind) ← takeDouble none rest
      some ((← escaped? c) :: more, behind)
  | c :: rest =>
    match pending with
    | some (left, code) => do
      let code := 16 * code + (← Spelling.digitValue? 16 c)
      if left = 1 then
        let (more, behind) ← takeDouble none rest
        some (Char.ofNat code :: more, behind)
      else takeDouble (some (left - 1, code)) rest
    | none =>
      if c = '\x22' then some ([], rest)
      else (takeDouble none rest).map fun (more, behind) => (c :: more, behind)

/-- The rest of a text in single quotes, in which a quote is written twice, and what stands behind
it. -/
def takeSingle : List Char → Option (List Char × List Char)
  | [] => none
  | '\x27' :: '\x27' :: rest =>
    (takeSingle rest).map fun (more, behind) => ('\x27' :: more, behind)
  | '\x27' :: rest => some ([], rest)
  | c :: rest => (takeSingle rest).map fun (more, behind) => (c :: more, behind)

/-- What closes a bracket directly or behind blanks, and what stands behind it. A bracket that is
closed further on is not supported; `more` says whether anything stands on the lines below. -/
def takeEmpty (more : Bool) (close : Char) (value : Written) (text : List Char) :
    Except DocumentFault (Written × List Char) :=
  match text.dropWhile (· == ' ') with
  | c :: behind =>
    if c = close then .ok (value, behind)
    else .error (if more || behind.contains close then .unsupported else .layout)
  | [] => .error (if more then .unsupported else .layout)

/-- A quoted text, if it is closed. -/
def quotedText (more : Bool) (taken : Option (List Char × List Char)) :
    Except DocumentFault (Written × List Char) :=
  match taken with
  | some (text, behind) => .ok (.quoted text, behind)
  | none => .error (if more then .unsupported else .mark)

/-- Whether a text starts with a name, which ends where the text ends or at one of a few marks. -/
def startsWithName (text : List Char) : Bool :=
  let isNameChar := fun (c : Char) => c.isAlphanum || c == '-' || c == '_'
  let behind := text.dropWhile isNameChar
  let ends := ['?', ':', ',', ']', '\x7d', '%', '@', '\x60']
  (text.head?.map isNameChar).getD false &&
    (opensBlank behind || ends.contains (behind.headD ' '))

/-- What stands behind the name at the start of a text, and blanks. -/
def behindName (text : List Char) : List Char :=
  (text.dropWhile fun c => c.isAlphanum || c == '-' || c == '_').dropWhile (· == ' ')

/-- Whether a text ends the mark of a text of its own lines: at most one digit, which is not zero,
and one sign, in either order. -/
def endsBlockMark (text : List Char) : Bool :=
  let isSign := fun (c : Char) => c == '+' || c == '-'
  let isWidth := fun (c : Char) => c.isDigit && c != '0'
  match text with
  | a :: b :: rest =>
    if isSign a && isWidth b || isWidth a && isSign b then opensBlank rest
    else if isSign a || isWidth a then opensBlank (b :: rest)
    else opensBlank text
  | [a] => isSign a || isWidth a || opensBlank text
  | [] => true

/-- A text of the lines below its mark, of which there are none. -/
def takeBlock (more : Bool) (text : List Char) : Except DocumentFault (Written × List Char) :=
  if !endsBlockMark text then .error .mark
  else if more || (text.take 2).contains '+' then .error .unsupported
  else .ok (.quoted [], text.dropWhile (· != ' '))

/-- A value of a named kind. The kinds of the notation itself are not supported. -/
def takeNamed (text : List Char) : Except DocumentFault (Written × List Char) :=
  if opensBlank text || ['!', '<'].contains (text.headD ' ') then .error .unsupported
  else .ok (.named, (takePlain [] text).2)

/-- A value without a name of its own at the start of a text, and what stands behind it; `more` says
whether anything stands on the lines below. -/
def takeUnnamed (more : Bool) (text : List Char) : Except DocumentFault (Written × List Char) :=
  let plain :=
    let (value, behind) := takePlain [] text
    .ok (.plain value, behind)
  match text with
  | [] => .ok (.plain [], [])
  | c :: rest =>
    if c = '\x22' then quotedText more (takeDouble none rest)
    else if c = '\x27' then quotedText more (takeSingle rest)
    else if c = '[' then takeEmpty more ']' .emptyList rest
    else if c = '\x7b' then takeEmpty more '\x7d' .emptyMapping rest
    else if c = '-' || c = '?' then if opensBlank rest then .error .mark else plain
    else if c = '*' then .error (if startsWithName rest then .reference else .mark)
    else if c = '!' then takeNamed rest
    else if c = '|' || c = '>' then takeBlock more rest
    else if [',', ']', '\x7d'].contains c then .error .layout
    else if ['\t', '%', '@', '\x60', '&'].contains c then .error .mark
    else plain

/-- A value at the start of a text, and what stands behind it. A name in front of it, to which other
values could refer, says nothing about the value; where the value would have to stand on another
line, it is not supported. -/
def takeValue (more : Bool) (text : List Char) : Except DocumentFault (Written × List Char) :=
  match text with
  | '&' :: rest =>
    let behind := behindName rest
    if !startsWithName rest then .error .mark
    else if behind.isEmpty || behind.head? == some '#' then
      if more then .error .unsupported else .ok (.plain [], behind)
    else takeUnnamed more behind
  | _ => takeUnnamed more text

/-- Whether a comment or nothing but blanks stands behind a value, and which of the two. What else
stands there is a mark out of place or a value that belongs to nothing. -/
def ending (behind : List Char) : Except DocumentFault Bool :=
  match behind.dropWhile (· == ' ') with
  | [] => .ok false
  | c :: rest =>
    if c = '#' then .ok true
    else if ['\t', '%', '@', '\x60'].contains c then .error .mark
    else if [':', '-', '?'].contains c && opensBlank rest then .error .mark
    else .error .layout

/-- The setting of a value. -/
def Written.setting : Written → Except DocumentFault Setting
  | plain text => Spelling.setting text
  | quoted text => .ok (.text (String.ofList text))
  | emptyList => .ok (.list [])
  | emptyMapping => .ok (.mapping [])
  | named => .error .meaning

/-- The setting of a key. Lists and mappings are no keys. -/
def Written.key : Written → Except DocumentFault Setting
  | emptyList | emptyMapping => .error .meaning
  | value => value.setting

/-! ### Lists and mappings -/

/-- What a line is by itself. -/
inductive Form where
  /-- An item of a list; behind its dash there may be another line. -/
  | item (line : Option Line)
  /-- An entry of a mapping: its key, and what stands behind the colon. -/
  | entry (key : Written) (text : List Char)
  /-- A value, and what stands behind it. -/
  | value (value : Written) (behind : List Char)

/-- The line behind a dash. -/
def Line.behindDash (line : Line) : Option Line :=
  let text := (line.text.drop 1).dropWhile (· == ' ')
  match text.head? with
  | none | some '#' => none
  | some _ => some { line with column := line.column + line.text.length - text.length, text }

/-- Whether a line is an item of a list. -/
def Line.isItem (line : Line) : Bool :=
  match line.text with
  | '-' :: rest => opensBlank rest
  | _ => false

/-- The longest distance from the start of a key to its colon. -/
def maxKeyLength : Nat := 1024

/-- What a line is by itself. An entry has a key in front of its colon; where the key is marked, it
is not supported. -/
def Line.form (line : Line) : Except DocumentFault Form := do
  if line.isItem then return .item line.behindDash
  else if line.text.head? == some '?' && opensBlank (line.text.drop 1) then .error .unsupported
  else if line.text.head? == some ':' && opensBlank (line.text.drop 1) then .error .layout
  else
    let (value, behind) ← takeValue line.more line.text
    match behind.dropWhile (· == ' ') with
    | ':' :: rest =>
      if !opensBlank rest then return .value value behind
      else if maxKeyLength < line.text.length - rest.length - 1 then .error .mark
      else return .entry value (rest.dropWhile (· == ' '))
    | _ => return .value value behind

/-- An unquoted value goes on with lines below it: lines are joined by a blank, or by as many line
feeds as there are blank lines between them. A comment ends the value for good. -/
def continued (value : List Char) (closed : Bool) : List Line → Except DocumentFault (List Char)
  | [] => .ok value
  | line :: lines => do
    if closed || line.apart then .error .layout
    else
      let (more, behind) := takePlain [] line.text
      let joint := if line.gap = 0 then [' '] else List.replicate line.gap '\n'
      continued (value ++ joint ++ more) (← ending behind) lines

/-- The layout of a text: lists, mappings and written values. -/
inductive Node where
  | value (value : Written)
  | list (items : List Node)
  | mapping (entries : List (Written × Node))

/-- A value with the lines below it. -/
def valueNode (value : Written) (behind : List Char) (lines : List Line) :
    Except DocumentFault Node := do
  let closed ← ending behind
  match value, lines with
  | .plain text, lines => return .value (.plain (← continued text closed lines))
  | value, [] => return .value value
  | _, _ :: _ => .error .layout

mutual

/-- The node of lines: a list, a mapping or a single value; at most `depth` steps deep. -/
def nodeOf : (depth : Nat) → List Line → Except DocumentFault Node
  | 0, _ | _, [] => .ok (.value (.plain []))
  | depth + 1, line :: lines => do
    match ← line.form with
    | .item _ => .list <$> items depth line.column (line :: lines)
    | .entry _ _ => .mapping <$> entries depth line.column (line :: lines)
    | .value value behind => valueNode value behind lines

/-- The items of a list whose dashes are at a column. -/
def items : (depth : Nat) → (column : Nat) → List Line → Except DocumentFault (List Node)
  | 0, _, _ | _, _, [] => .ok []
  | depth + 1, column, line :: lines => do
    let inner := lines.takeWhile fun l => column < l.column
    let outer := lines.dropWhile fun l => column < l.column
    match ← line.form with
    | .item first =>
      if line.column ≠ column then .error .layout
      else
        let item ← nodeOf depth (first.toList ++ inner)
        return item :: (← items depth column outer)
    | .entry _ _ => .error .layout
    | .value _ _ => .error (if line.column = column then .mark else .layout)

/-- The entries of a mapping whose keys are at a column. Items of a list may stand at the same
column below a key with nothing behind it. -/
def entries : (depth : Nat) → (column : Nat) → List Line →
    Except DocumentFault (List (Written × Node))
  | 0, _, _ | _, _, [] => .ok []
  | depth + 1, column, line :: lines => do
    match ← line.form with
    | .entry key text =>
      if line.column ≠ column then .error .layout
      else
        let isOpen := text.isEmpty || text.head? = some '#'
        let isInner := fun (l : Line) =>
          column < l.column || (isOpen && l.column == column && l.isItem)
        let inner := lines.takeWhile isInner
        let node ← if isOpen then nodeOf depth inner else do
          let (value, behind) ← takeValue line.more text
          valueNode value behind inner
        return (key, node) :: (← entries depth column (lines.dropWhile isInner))
    | .item _ => .error .layout
    | .value _ _ => .error (if line.column = column then .mark else .layout)

end

/-! ### Meaning -/

/-- The key whose mapping is merged into the one that it stands in. -/
def Written.isMerge : Written → Bool
  | .plain text => text == ['<', '<']
  | _ => false

/-- Whether a node is a list or a mapping. -/
def Node.isContainer : Node → Bool
  | .list _ | .mapping _ | .value .emptyList | .value .emptyMapping => true
  | _ => false

mutual

/-- The setting of a node. -/
def Node.setting : Node → Except DocumentFault Setting
  | .value value => value.setting
  | .list items => .list <$> itemSettings items
  | .mapping entries => .mapping <$> entrySettings entries

/-- The settings of items, one by one. -/
def itemSettings : List Node → Except DocumentFault (List Setting)
  | [] => .ok []
  | item :: items => do return (← item.setting) :: (← itemSettings items)

/-- The settings of entries, one by one, each key before its value. A mapping that is to be merged
is not supported. -/
def entrySettings : List (Written × Node) → Except DocumentFault (List (Setting × Setting))
  | [] => .ok []
  | (key, node) :: entries => do
    if key.isMerge && node.isContainer then .error .unsupported
    else return (← key.key, ← node.setting) :: (← entrySettings entries)

end

/-- What is said of a text that is refused: a reference is none that is supported where the text
gives names to values. -/
def refusal (text : List Char) (fault : DocumentFault) : DocumentFault :=
  if fault == .reference && text.contains '&' then .unsupported else fault

/-- The setting that the text of a configuration stands for. -/
def read (text : String) : Except DocumentFault Setting :=
  let lines := lines text.toList
  if !text.toList.all isAllowed then .error .character
  else if lines.any Line.isBoundary then .error .unsupported
  else ((nodeOf (text.length + 1) lines).bind Node.setting).mapError (refusal text.toList)

end Document

end DecimalScript
