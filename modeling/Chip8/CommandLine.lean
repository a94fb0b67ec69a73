import Chip8.CommandLine.Help
import Chip8.CommandLine.Option
import Chip8.Keymap
import Chip8.Options
import Chip8.Text.Quoted

/-!
The command line: one file name and options before or after it. The arguments are first understood
one by one and then taken from left to right; the first plain argument is the file name, and
further ones are reported together once everything else is right.
-/

namespace Chip8.CommandLine

inductive Fault
  | missingFilename
  | unrecognized (arguments : List String)
  | ambiguous (argument : String) (names : List Name)
  | missingValue (name : Name)
  /-- A value for an option that takes none. -/
  | ignoredValue (name : Name) (value : String)
  | notInteger (name : Name) (value : String)
  /-- A value that is none of the choices; both are given as they are shown. -/
  | notAChoice (name : Name) (value : String) (choices : List String)
deriving DecidableEq

def Fault.message : Fault → String
  | .missingFilename => "the following arguments are required: filename"
  | .unrecognized arguments => "unrecognized arguments: " ++ " ".intercalate arguments
  | .ambiguous argument names =>
    "ambiguous option: " ++ argument ++ " could match " ++ ", ".intercalate (names.map Name.long)
  | .missingValue name => "argument " ++ name.label ++ ": expected one argument"
  | .ignoredValue name value =>
    "argument " ++ name.label ++ ": ignored explicit argument " ++ Text.quoted value
  | .notInteger name value =>
    "argument " ++ name.label ++ ": invalid int value: " ++ Text.quoted value
  | .notAChoice name value choices =>
    "argument " ++ name.label ++ ": invalid choice: " ++ value ++ " (choose from " ++
      ", ".intercalate choices ++ ")"

/-- Why no options come out. -/
inductive Exit
  | help
  | fault (fault : Fault)
deriving DecidableEq

def rendererChoices : List String := FrontEndKind.all.map FrontEndKind.name

def muteChoices : List Int := [0, 1]

/-- What has been taken from the arguments so far. -/
structure Progress where
  filename : Option String
  renderer : Setting String
  scale : Setting Extent
  mute : Setting Int
  keymap : Setting String
  debug : Bool
  extras : List String

/-- Before the first argument. The keymap is preset. -/
def Progress.start : Progress :=
  ⟨none, .unset, .unset, .unset, .given Keymap.standard, false, []⟩

def integerValue (name : Name) (value : String) : Except Exit Int :=
  match Text.integer? value.toList with
  | some n => .ok n
  | none => .error (.fault (.notInteger name value))

namespace Progress

def setFlag (p : Progress) (name : Name) : Except Exit Progress :=
  match name with
  | .help => .error .help
  | .debug => .ok { p with debug := true }
  | _ => .ok p

/-- Drops the value of an option. -/
def setBlank (p : Progress) (name : Name) : Progress :=
  match name with
  | .renderer => { p with renderer := .foreign true }
  | .scale => { p with scale := .foreign true }
  | .mute => { p with mute := .foreign true }
  | .keymap => { p with keymap := .foreign true }
  | _ => p

def setValue (p : Progress) (name : Name) (value : String) : Except Exit Progress :=
  if value = "--" then .ok (p.setBlank name)
  else match name with
    | .renderer =>
      if value ∈ rendererChoices then .ok { p with renderer := .given value }
      else .error (.fault (.notAChoice name (Text.quoted value) (rendererChoices.map Text.quoted)))
    | .scale => do return { p with scale := .given (.whole (← integerValue name value)) }
    | .mute => do
      let n ← integerValue name value
      if n ∈ muteChoices then .ok { p with mute := .given n }
      else .error (.fault (.notAChoice name (toString n) (muteChoices.map toString)))
    | .keymap => .ok { p with keymap := .given value }
    | _ => .ok p

def setFlags (p : Progress) (names : List Name) : Except Exit Progress := names.foldlM setFlag p

/-- A plain argument: the file name, or one too many. -/
def addPlain (p : Progress) (text : String) : Progress :=
  match p.filename with
  | none => { p with filename := some text }
  | some _ => { p with extras := p.extras ++ [text] }

end Progress

/-- The options in one argument: those without a value, and a last one with the value that is part
of the argument, if there is one. -/
structure Cluster where
  flags : List Name
  last : Name
  value : Option String

/-- Takes the letters after an option apart: while the options take no value, every letter is an
option, and what follows an option that takes one is its value. -/
def clusterLetters (name : Name) : List Char → Except Fault Cluster
  | [] => .ok ⟨[], name, none⟩
  | c :: rest =>
    if name.takesValue then .ok ⟨[], name, some (String.ofList (c :: rest))⟩
    else match Name.ofSpelling? ['-', c] with
      | none => .error (.ignoredValue name (String.ofList (c :: rest)))
      | some next => (clusterLetters next rest).map fun more =>
        { more with flags := name :: more.flags }

/-- Takes an argument apart. Only options with one dash can be followed by further ones. -/
def cluster (name : Name) (isShort : Bool) : Option (List Char) → Except Fault Cluster
  | none => .ok ⟨[], name, none⟩
  | some value =>
    if name.takesValue then .ok ⟨[], name, some (String.ofList value)⟩
    else if isShort && !value.isEmpty then clusterLetters name value
    else .error (.ignoredValue name (String.ofList value))

namespace Progress

/-- Takes the options of an argument, the last of them with its value if it takes one. -/
def addCluster (p : Progress) (c : Cluster) (value : Option String) : Except Exit Progress := do
  let p ← p.setFlags c.flags
  match value with
  | some v => p.setValue c.last v
  | none => p.setFlag c.last

def addExtras (p : Progress) (texts : List String) : Progress :=
  { p with extras := p.extras ++ texts }

end Progress

/-- Takes all arguments from left to right. A separator next to the file name goes with it; any
other one is an argument that nothing takes. -/
def takeAll (p : Progress) : List Token → Except Exit Progress
  | [] => .ok p
  | .plain text :: .separator :: rest =>
    if p.filename.isNone then takeAll (p.addPlain text) rest
    else takeAll (p.addExtras [text, "--"]) rest
  | .plain text :: rest => takeAll (p.addPlain text) rest
  | .separator :: .plain text :: rest =>
    if p.filename.isNone then takeAll (p.addPlain text) rest
    else takeAll (p.addExtras ["--", text]) rest
  | .separator :: rest => takeAll (p.addExtras ["--"]) rest
  | .unknown text :: rest => takeAll (p.addExtras [text]) rest
  | .option name isShort value :: rest =>
    match cluster name isShort value with
    | .error f => .error (.fault f)
    | .ok c =>
      match c.value with
      | some v => do takeAll (← p.addCluster c (some v)) rest
      | none =>
        if c.last.takesValue then
          match rest with
          | .plain v :: after => do takeAll (← p.addCluster c (some v)) after
          | _ => .error (.fault (.missingValue c.last))
        else do takeAll (← p.addCluster c none) rest
termination_by structural tokens => tokens

/-- Understands the arguments one by one; all are plain after the separator. -/
def tokens : List String → Except Fault (List Token)
  | [] => .ok []
  | arg :: rest =>
    if arg = "--" then .ok (.separator :: rest.map .plain)
    else match classify arg with
      | .error names => .error (.ambiguous arg names)
      | .ok token => (tokens rest).map (token :: ·)

/-- What is left to check once all arguments are taken. -/
def Progress.finish (p : Progress) : Except Exit Options :=
  match p.filename with
  | none => .error (.fault .missingFilename)
  | some filename =>
    if p.extras.isEmpty then
      .ok ⟨.given (.path filename), p.renderer, p.scale, p.mute, p.keymap, .given p.debug⟩
    else .error (.fault (.unrecognized p.extras))

def parse (args : List String) : Except Exit Options :=
  match tokens args with
  | .error f => .error (.fault f)
  | .ok ts => do (← takeAll .start ts).finish

end Chip8.CommandLine
