import LeaderLease.Number.Decimal

/-!
# TOML text literals and blanks

Basic literals stand between quotes and know escapes; plain ones stand between apostrophes. Tripled
marks let a literal go over several lines, where a line break right behind the opening mark is
dropped and every line break counts as a line feed. Up to two marks may stand before the closing
three.
-/

set_option autoImplicit false

namespace LeaderLease.Toml

/-! ## Blanks and comments -/

def isSpace (c : Char) : Bool := c = ' ' || c = '\t'

def skipSpace (cs : List Char) : List Char := cs.dropWhile isSpace

/-- A tab, or a character that is no control; the last ASCII code counts as none here. -/
def isCommentChar (c : Char) : Bool := c = '\t' || 0x20 ≤ c.toNat

/-- Blanks and comments up to the end of the line, which is removed; nothing else may stand there.
The flag says that a comment has begun. -/
def endLine : Bool → List Char → Option (List Char)
  | _, [] => some []
  | _, '\n' :: cs => some cs
  | _, '\r' :: '\n' :: cs => some cs
  | true, c :: cs => if isCommentChar c then endLine true cs else none
  | false, c :: cs =>
    if isSpace c then endLine false cs else if c = '#' then endLine true cs else none

/-- Removes blanks, line breaks and whole comments. -/
def skipLines : Bool → List Char → Option (List Char)
  | false, [] => some []
  | true, [] => none
  | _, '\n' :: cs => skipLines false cs
  | _, '\r' :: '\n' :: cs => skipLines false cs
  | true, c :: cs => if isCommentChar c then skipLines true cs else none
  | false, c :: cs =>
    if isSpace c then skipLines false cs else if c = '#' then skipLines true cs else some (c :: cs)

/-! ## Literals -/

/-- A character of a literal that stands for itself. -/
def isPlain (c : Char) : Bool := c = '\t' || (0x20 ≤ c.toNat && c.toNat ≠ 0x7F)

/-- The character that a letter behind a backslash stands for. -/
def shortEscape? : Char → Option Char
  | '"' => some '"'
  | '\\' => some '\\'
  | 'b' => some '\x08'
  | 'f' => some '\x0c'
  | 'n' => some '\n'
  | 'r' => some '\r'
  | 't' => some '\t'
  | _ => none

/-- The character with the given hexadecimal code. -/
def codeChar? (digits : List Char) : Option Char :=
  match Decimal.hexValue? digits with
  | some n => if h : n.isValidChar then some (Char.ofNatAux n h) else none
  | none => none

/-- The rest of a basic literal behind its opening quote. -/
def readBasic (done : List Char) : List Char → Option (String × List Char)
  | [] => none
  | '"' :: cs => some (String.ofList done.reverse, cs)
  | '\\' :: 'u' :: a :: b :: c :: d :: cs =>
    match codeChar? [a, b, c, d] with
    | some e => readBasic (e :: done) cs
    | none => none
  | '\\' :: 'U' :: a :: b :: c :: d :: e :: f :: g :: h :: cs =>
    match codeChar? [a, b, c, d, e, f, g, h] with
    | some e => readBasic (e :: done) cs
    | none => none
  | '\\' :: c :: cs =>
    match shortEscape? c with
    | some e => readBasic (e :: done) cs
    | none => none
  | c :: cs => if isPlain c ∧ c ≠ '\\' then readBasic (c :: done) cs else none

/-- The rest of a plain literal behind its opening apostrophe. -/
def readPlain (done : List Char) : List Char → Option (String × List Char)
  | [] => none
  | '\'' :: cs => some (String.ofList done.reverse, cs)
  | c :: cs => if isPlain c then readPlain (c :: done) cs else none

/-- Up to two marks behind the closing three belong to the text. -/
def closeLines (mark : Char) (done : List Char) : List Char → String × List Char
  | a :: b :: cs =>
    if a = mark then
      if b = mark then (String.ofList (b :: a :: done).reverse, cs)
      else (String.ofList (a :: done).reverse, b :: cs)
    else (String.ofList done.reverse, a :: b :: cs)
  | [a] =>
    if a = mark then (String.ofList (a :: done).reverse, []) else (String.ofList done.reverse, [a])
  | [] => (String.ofList done.reverse, [])

/-- Only blanks stand before the next line break. -/
def isLineEnd (cs : List Char) : Bool :=
  match skipSpace cs with
  | '\n' :: _ | '\r' :: '\n' :: _ => true
  | _ => false

/-- The rest of a basic literal over several lines. The flag says that blanks and line breaks are
being dropped, as they are behind a backslash at the end of a line. -/
def readBasicLines (done : List Char) : Bool → List Char → Option (String × List Char)
  | _, [] => none
  | _, '"' :: '"' :: '"' :: cs => some (closeLines '"' done cs)
  | _, '"' :: cs => readBasicLines ('"' :: done) false cs
  | dropping, '\r' :: '\n' :: cs =>
    if dropping then readBasicLines done true cs else readBasicLines ('\n' :: done) false cs
  | _, '\\' :: 'u' :: a :: b :: c :: d :: cs =>
    match codeChar? [a, b, c, d] with
    | some e => readBasicLines (e :: done) false cs
    | none => none
  | _, '\\' :: 'U' :: a :: b :: c :: d :: e :: f :: g :: h :: cs =>
    match codeChar? [a, b, c, d, e, f, g, h] with
    | some e => readBasicLines (e :: done) false cs
    | none => none
  | _, '\\' :: c :: cs =>
    match shortEscape? c with
    | some e => readBasicLines (e :: done) false cs
    | none => if isLineEnd (c :: cs) then readBasicLines done true (c :: cs) else none
  | dropping, c :: cs =>
    if dropping ∧ (isSpace c ∨ c = '\n') then readBasicLines done true cs
    else if (isPlain c ∧ c ≠ '\\') ∨ c = '\n' then readBasicLines (c :: done) false cs
    else none

/-- The rest of a plain literal over several lines. -/
def readPlainLines (done : List Char) : List Char → Option (String × List Char)
  | [] => none
  | '\'' :: '\'' :: '\'' :: cs => some (closeLines '\'' done cs)
  | '\r' :: '\n' :: cs => readPlainLines ('\n' :: done) cs
  | c :: cs => if isPlain c ∨ c = '\n' then readPlainLines (c :: done) cs else none

def dropLineBreak : List Char → List Char
  | '\n' :: cs => cs
  | '\r' :: '\n' :: cs => cs
  | cs => cs

/-- A literal of any of the four kinds. -/
def readText : List Char → Option (String × List Char)
  | '"' :: '"' :: '"' :: cs => readBasicLines [] false (dropLineBreak cs)
  | '"' :: cs => readBasic [] cs
  | '\'' :: '\'' :: '\'' :: cs => readPlainLines [] (dropLineBreak cs)
  | '\'' :: cs => readPlain [] cs
  | _ => none

/-! ## Keys -/

def isKeyChar (c : Char) : Bool := c.isAlphanum || c = '_' || c = '-'

/-- One part of a key: a literal on one line, or letters, digits, underscores and dashes. -/
def readKeyPart : List Char → Option (String × List Char)
  | '"' :: cs => readBasic [] cs
  | '\'' :: cs => readPlain [] cs
  | cs =>
    if cs.takeWhile isKeyChar = [] then none
    else some (String.ofList (cs.takeWhile isKeyChar), cs.dropWhile isKeyChar)

/-- Parts joined by points, with blanks around them. The fuel counts parts. -/
def readKeyParts : Nat → List Char → Option (List String × List Char)
  | 0, _ => none
  | fuel + 1, cs => do
    let (part, rest) ← readKeyPart (skipSpace cs)
    match skipSpace rest with
    | '.' :: rest => do
      let (parts, rest) ← readKeyParts fuel rest
      some (part :: parts, rest)
    | rest => some ([part], rest)

/-- The first count of parts of a key, or of levels of nesting, that is refused. -/
def depthLimit : Nat := 80

def readKey (cs : List Char) : Option (List String × List Char) := readKeyParts (depthLimit - 1) cs

end LeaderLease.Toml
