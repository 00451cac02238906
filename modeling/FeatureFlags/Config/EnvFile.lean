import FeatureFlags.Table
import FeatureFlags.Text.Affix
import FeatureFlags.Text.Blank
import FeatureFlags.Text.WordChar

/-!
# Environment files

A file with lines `NAME=value`, from which variables are set that are not set yet.

* `EnvFile.assemble`     the lines of the file: inside quotes, and after a backslash at its end, a
                         line goes on over a line break; from a `#` after a blank on, it is a
                         comment;
* `EnvFile.parseLine`    name and value of a line, with `export` before it or not;
* `EnvFile.parseValue`   values are bare or quoted; a dollar sign stands for the value of a
                         variable, except in single quotes;
* `EnvFile.load`         sets the variables line by line, up to the first malformed line;
* `EnvFile.references`   the variables whose values the file may ask for.
-/

namespace FeatureFlags.EnvFile

/-! ## lines -/

/-- what surrounds the current place in a line -/
inductive Place where
  | plain
  | blank
  | escape
  | single
  | singleEscape
  | double
  | doubleEscape
  deriving DecidableEq

def isLineBreak (c : Char) : Bool := c = '\n' || c = '\r'

/-- the place after a character; nothing where a comment begins -/
def Place.after? (p : Place) (c : Char) : Option Place :=
  match p with
  | .escape => some .plain
  | .single => some (if c = '\\' then .singleEscape else if c = '\'' then .plain else .single)
  | .singleEscape => some .single
  | .double => some (if c = '\\' then .doubleEscape else if c = '"' then .plain else .double)
  | .doubleEscape => some .double
  | .plain | .blank =>
    if p = .blank && c = '#' then none
    else if p = .plain && Text.isBlank c && !isLineBreak c then some .blank
    else if c = '\\' then some .escape
    else if c = '"' then some .double
    else if c = '\'' then some .single
    else some .plain

/-- Follows a text from a place on: to the place at its end, or to the part before a comment. -/
def follow : Place → List Char → Place ⊕ List Char
  | p, [] => .inl p
  | p, c :: cs =>
    match p.after? c with
    | none => .inr []
    | some p =>
      match follow p cs with
      | .inl p => .inl p
      | .inr before => .inr (c :: before)

/-- the lines of a text, each with its line break -/
def splitLines : List Char → List (List Char)
  | [] => []
  | c :: cs =>
    if c = '\n' then [c] :: splitLines cs
    else
      match splitLines cs with
      | [] => [[c]]
      | l :: ls => (c :: l) :: ls

def dropLineBreak (line : List Char) : List Char :=
  match line.reverse with
  | '\n' :: '\r' :: cs => cs.reverse
  | '\n' :: cs => cs.reverse
  | _ => line

def isComment (cs : List Char) : Bool := (cs.dropWhile Text.isBlank).head? == some '#'

/-- Puts lines together that belong together.  `none` stands for the end of the file inside of
quotes, after a backslash, or after a blank. -/
def assemble : List Char → Place → List (List Char) → List (Option (List Char))
  | _, p, [] => if p = .plain then [] else [none]
  | pending, p, line :: rest =>
    let text := pending ++ line
    if isComment text then some [] :: assemble [] .plain rest
    else
      match follow p line with
      | .inr before => some (pending ++ before) :: assemble [] .plain rest
      | .inl .plain => some (dropLineBreak text) :: assemble [] .plain rest
      | .inl p => assemble text p rest

/-! ## values -/

/-- A variable whose name is being read: after the dollar sign, or also after a brace. -/
inductive Reference where
  | bare
  | braced
  deriving DecidableEq

structure ValueState where
  single : Bool := false
  double : Bool := false
  escaped : Bool := false
  /-- only blanks and a comment may follow -/
  ended : Bool := false
  reference : Option Reference := none
  name : List Char := []
  value : List Char := []

abbrev Environment := Table String

def lookUp (env : Environment) (name : List Char) : List Char :=
  ((env.find? (String.ofList name)).getD "").toList

namespace ValueState

def push (s : ValueState) (c : Char) : ValueState := { s with value := s.value ++ [c] }

/-- puts the value of the variable in place of its name -/
def substitute (env : Environment) (s : ValueState) : ValueState :=
  { s with value := s.value ++ lookUp env s.name, name := [], reference := none }

/-- the character an escape stands for -/
def escape? (c : Char) : Option Char :=
  if c = '\\' || c = '\'' || c = '"' || c = '$' || c = ' ' then some c
  else if c = 'n' then some '\n'
  else none

/-- A character inside of a reference.  A bare one ends before the first character that is no
letter and no digit. -/
def stepReference (env : Environment) (s : ValueState) (r : Reference) (c : Char) : ValueState :=
  if Text.isWordChar c then { s with name := s.name ++ [c] }
  else
    match r with
    | .braced =>
      if c = '\x7d' then s.substitute env else { s with name := s.name ++ [c] }
    | .bare =>
      if c = '\x7b' && s.name.isEmpty then { s with reference := some .braced }
      else
        let s := s.substitute env
        if c = '$' then { s with reference := some .bare } else s.push c

/-- a character of a value; nothing where the value is malformed -/
def step? (env : Environment) (s : ValueState) (c : Char) : Option ValueState :=
  if s.escaped then (escape? c).map (fun c => { s.push c with escaped := false })
  else if s.single then some (if c = '\'' then { s with single := false } else s.push c)
  else
    match s.reference with
    | some r => some (s.stepReference env r c)
    | none =>
      if c = '$' then some { s with reference := some .bare }
      else if c = '\\' then some { s with escaped := true }
      else if s.double then some (if c = '"' then { s with double := false } else s.push c)
      else if c = '\'' then some { s with single := true }
      else if c = '"' then some { s with double := true }
      else if c = ' ' || c = '\t' then some { s with ended := true }
      else some (s.push c)

def finish? (env : Environment) (s : ValueState) : Option (List Char) :=
  if s.reference = some .braced || s.single || s.double then none
  else some (s.substitute env).value

end ValueState

def parseValue (env : Environment) (s : ValueState) : List Char → Option (List Char)
  | [] => s.finish? env
  | c :: cs =>
    if s.ended then
      if c = ' ' || c = '\t' then parseValue env s cs
      else if c = '#' then s.finish? env
      else none
    else (s.step? env c).bind (fun s => parseValue env s cs)

/-! ## assignments -/

def isKeyStart (c : Char) : Bool := c.isAlpha || c = '_'
def isKeyChar (c : Char) : Bool := c.isAlphanum || c = '_' || c = '.'

def skipBlanks (cs : List Char) : List Char := cs.dropWhile Text.isBlank

/-- a name and what follows it, blanks skipped -/
def parseKey (cs : List Char) : Option (List Char × List Char) :=
  match cs with
  | [] => none
  | c :: _ =>
    if isKeyStart c then some (cs.takeWhile isKeyChar, skipBlanks (cs.dropWhile isKeyChar))
    else none

/-- The name and the text of the value.  `export` before a name is skipped, unless it is the
name. -/
def parseAssignment (cs : List Char) : Option (List Char × List Char) :=
  match parseKey cs with
  | some (key, '=' :: rest) => some (key, skipBlanks rest)
  | some (key, rest) =>
    if key = "export".toList then
      match parseKey rest with
      | some (key, '=' :: rest) => some (key, skipBlanks rest)
      | _ => none
    else none
  | none => none

inductive Line where
  | empty
  | malformed
  | assignment (name value : String)

def parseLine (env : Environment) (line : List Char) : Line :=
  let cs := Text.trimChars line
  if cs.isEmpty || cs.head? == some '#' then .empty
  else
    match parseAssignment cs with
    | none => .malformed
    | some (key, text) =>
      if text.isEmpty || text.head? == some '#' then .assignment (String.ofList key) ""
      else
        match parseValue env {} text with
        | some value => .assignment (String.ofList key) (String.ofList value)
        | none => .malformed

/-- sets a variable that is not set -/
def setIfAbsent (env : Environment) (name value : String) : Environment :=
  if env.contains name then env else env.insert name value

def loadLines (env : Environment) : List (Option (List Char)) → Environment
  | [] => env
  | none :: _ => env
  | some line :: rest =>
    match parseLine env line with
    | .empty => loadLines env rest
    | .malformed => env
    | .assignment name value => loadLines (setIfAbsent env name value) rest

/-- a mark of the byte order at the beginning is skipped -/
def dropByteOrderMark : List Char → List Char
  | '\ufeff' :: cs => cs
  | cs => cs

/-- the lines of a file, put together -/
def linesOf (file : String) : List (Option (List Char)) :=
  assemble [] .plain (splitLines (dropByteOrderMark file.toList))

/-- The environment after the file was read. -/
def load (env : Environment) (file : String) : Environment := loadLines env (linesOf file)

/-! ## what a file refers to -/

/-- the name that stands behind a dollar sign, in braces or not -/
def nameBehind : List Char → List Char
  | '\x7b' :: cs => cs.takeWhile (· ≠ '\x7d')
  | cs => cs.takeWhile Text.isWordChar

/-- the names in a text that stand behind dollar signs -/
def namesIn : List Char → List (List Char)
  | [] => []
  | c :: cs => if c = '$' then nameBehind cs :: namesIn cs else namesIn cs

/-- The variables that a file may refer to. -/
def references (file : String) : List String :=
  (linesOf file).flatMap fun line => (namesIn (Text.trimChars (line.getD []))).map String.ofList

end FeatureFlags.EnvFile
