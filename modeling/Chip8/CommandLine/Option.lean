import Chip8.Text.DecimalDigit

/-!
The options of the command line and how one argument is understood by itself: as an option, as the
separator, or as a plain argument. Long options may be abbreviated as long as only one option begins
that way. The value of an option may be a part of the same argument.
-/

namespace Chip8.CommandLine

inductive Name
  | help
  | renderer
  | scale
  | mute
  | keymap
  | debug
deriving DecidableEq

def Name.all : List Name := [.help, .renderer, .scale, .mute, .keymap, .debug]

def Name.short : Name → String
  | .help => "-h"
  | .renderer => "-r"
  | .scale => "-s"
  | .mute => "-m"
  | .keymap => "-k"
  | .debug => "-d"

def Name.long : Name → String
  | .help => "--help"
  | .renderer => "--renderer"
  | .scale => "--scale"
  | .mute => "--mute"
  | .keymap => "--keymap"
  | .debug => "--debug"

def Name.takesValue : Name → Bool
  | .help | .debug => false
  | .renderer | .scale | .mute | .keymap => true

/-- Both spellings, as messages show them. -/
def Name.label (n : Name) : String := n.short ++ "/" ++ n.long

def Name.ofSpelling? (text : List Char) : Option Name :=
  Name.all.find? fun n => n.short.toList == text || n.long.toList == text

inductive Token
  | plain (text : String)
  /-- Two dashes, after which all arguments are plain. -/
  | separator
  /-- An option in its short or long spelling, perhaps with a value in the same argument. -/
  | option (name : Name) (isShort : Bool) (value : Option (List Char))
  /-- Something that looks like an option and is none. -/
  | unknown (text : String)
deriving DecidableEq

/-- The text before and after the first equals sign, if there is one. -/
def splitEquals (cs : List Char) : List Char × Option (List Char) :=
  match cs.span (· ≠ '=') with
  | (before, _ :: after) => (before, some after)
  | (before, []) => (before, none)

/-- Whether all characters are decimal digits and there is at least one. -/
def allDigits (cs : List Char) : Bool :=
  !cs.isEmpty && cs.all fun c => (Text.digitValue? c).isSome

/-- Whether an argument is a negative number, whole or with a point. A line end may follow. -/
def isNegativeNumber (cs : List Char) : Bool :=
  match cs with
  | '-' :: rest =>
    let body := if rest.getLast? = some '\n' then rest.dropLast else rest
    allDigits body ||
      match body.span (· ≠ '.') with
      | (whole, _ :: fraction) => (whole.isEmpty || allDigits whole) && allDigits fraction
      | _ => false
  | _ => false

/-- The long options that an argument abbreviates, or the short one that it begins with. -/
def candidates (cs : List Char) : List Name :=
  match cs with
  | '-' :: '-' :: _ => Name.all.filter fun n => (splitEquals cs).1.isPrefixOf n.long.toList
  | '-' :: c :: _ => Name.all.filter fun n => n.short.toList == ['-', c]
  | _ => []

/-- The value in an argument that abbreviates a long option or begins with a short one. -/
def attachedValue (cs : List Char) : Option (List Char) :=
  match cs with
  | '-' :: '-' :: _ => (splitEquals cs).2
  | _ => some (cs.drop 2)

def hasOneDash (cs : List Char) : Bool := cs[1]? ≠ some '-'

/-- The option that an argument spells out, with a value after an equals sign or without. -/
def spelledOut? (cs : List Char) : Option Token :=
  match Name.ofSpelling? cs with
  | some n => some (.option n (hasOneDash cs) none)
  | none =>
    match splitEquals cs with
    | (_, none) => none
    | (name, some value) =>
      (Name.ofSpelling? name).map fun n => .option n (hasOneDash name) (some value)

/-- How an argument is understood. If several options fit, they are given instead. -/
def classify (text : String) : Except (List Name) Token :=
  let cs := text.toList
  if cs.head? ≠ some '-' || cs.length = 1 then .ok (.plain text)
  else match spelledOut? cs with
    | some token => .ok token
    | none =>
      match candidates cs with
      | [n] => .ok (.option n (hasOneDash cs) (attachedValue cs))
      | [] =>
        if isNegativeNumber cs || cs.contains ' ' then .ok (.plain text) else .ok (.unknown text)
      | several => .error several

end Chip8.CommandLine
