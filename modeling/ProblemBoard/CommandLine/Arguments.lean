import ProblemBoard.Path.Basic
import ProblemBoard.View.Mode

/-!
# Arguments

The arguments are the options of the program, a command, and the options of the command.
The workspace root and the settings file may be given on either side of the command; the
one behind it wins.  On one side an option may be given once.

The value of an option follows it, after an equals sign or as the next argument, which must
not look like an option then.  The first fault, or the first call for help, ends the
reading.
-/

namespace ProblemBoard.CommandLine

/-- What the program is asked to do. -/
inductive Command where
  | scan (group : Option GroupMode) (json : Bool)
  /-- Scan whenever the workspace changes. -/
  | watch (group : Option GroupMode)
  | config
  deriving DecidableEq, Repr

inductive CommandName where
  | scan
  | watch
  | config
  deriving DecidableEq, Repr

namespace CommandName

def ofText? : String → Option CommandName
  | "scan" => some scan
  | "watch" => some watch
  | "config" => some config
  | _ => none

end CommandName

/-- The arguments as they were understood. -/
structure Arguments where
  root : Option Path
  settings : Option Path
  command : Command
  deriving DecidableEq, Repr

/-- What arguments lead to. -/
inductive Intent where
  | usage
  /-- They ask for help about the program or a command. -/
  | help (topic : Option CommandName)
  /-- They ask for work. -/
  | run (a : Arguments)
  deriving DecidableEq, Repr

inductive OptionName where
  | root
  | settings
  | group
  | json
  | help
  deriving DecidableEq, Repr

namespace OptionName

def takesValue : OptionName → Bool
  | root => true
  | settings => true
  | group => true
  | json => false
  | help => false

/-- The option of a long name, in front of the command or behind it. -/
def ofLong? (command : Option CommandName) (name : String) : Option OptionName :=
  if name = "root" then some root
  else if name = "config" then some settings
  else if name = "help" then some help
  else if name = "group" && (command = some .scan || command = some .watch) then some group
  else if name = "json" && command = some .scan then some json
  else none

/-- The option of a letter. -/
def ofShort? : Char → Option OptionName
  | 'C' => some root
  | 'h' => some help
  | _ => none

end OptionName

/-- The options on one side of the command. -/
structure Options where
  root : Option Path
  settings : Option Path
  group : Option GroupMode
  json : Bool
  deriving DecidableEq, Repr

namespace Options

def none : Options := ⟨.none, .none, .none, false⟩

/-- A path that is given as a value; it must not be empty. -/
def pathValue (old : Option Path) (value : String) : Option Path :=
  if old.isSome || value.isEmpty then .none else some ⟨value⟩

/-- The options and one more with its value.  It fails when the option was given before or
does not take the value. -/
def set (o : Options) (name : OptionName) (value : String) : Option Options :=
  match name with
  | .root => (pathValue o.root value).map fun p => { o with root := some p }
  | .settings => (pathValue o.settings value).map fun p => { o with settings := some p }
  | .group =>
      if o.group.isSome then .none
      else (GroupMode.ofTyped? value).map fun m => { o with group := some m }
  | .json => if o.json then .none else some { o with json := true }
  | .help => .none

end Options

/-- One argument, as it is written. -/
inductive Word where
  /-- Two hyphens: no options follow. -/
  | escape
  /-- An option by its long name, maybe with a value. -/
  | long (name : String) (value : Option String)
  /-- Options by their letters. -/
  | short (letters : List Char)
  | plain (text : String)
  deriving DecidableEq, Repr

/-- A text up to an equals sign, and what is behind it. -/
def splitEquals (cs : List Char) : List Char × Option (List Char) :=
  match cs.dropWhile (· != '=') with
  | [] => (cs, none)
  | _ :: value => (cs.takeWhile (· != '='), some value)

def Word.ofText (s : String) : Word :=
  match s.toList with
  | ['-', '-'] => .escape
  | '-' :: '-' :: rest =>
      let (name, value) := splitEquals rest
      .long (String.ofList name) (value.map String.ofList)
  | ['-'] => .plain s
  | '-' :: letters => .short letters
  | _ => .plain s

/-- What options by their letters lead to. -/
inductive Letters where
  | wrong
  | help
  /-- They are read; the last one may still need its value. -/
  | read (o : Options) (needsValue : Option OptionName)

/-- Reads options by their letters.  What follows the letter of an option with a value is
that value, with or without an equals sign. -/
def readLetters (o : Options) : List Char → Letters
  | [] => .read o none
  | c :: rest =>
      match OptionName.ofShort? c with
      | none => .wrong
      | some .help => .help
      | some name =>
          if name.takesValue then
            match rest with
            | [] => .read o (some name)
            | _ =>
                let value := if rest.head? = some '=' then rest.tail else rest
                match o.set name (String.ofList value) with
                | some o => .read o none
                | none => .wrong
          else
            match o.set name "" with
            | some o => readLetters o rest
            | none => .wrong

/-- What the options on one side lead to. -/
inductive Side where
  | wrong
  | help
  /-- They are read up to a plain argument and those behind it, if there is one. -/
  | read (o : Options) (rest : Option (String × List String))

/-- Reads the options on one side; `pending` is an option whose value is the next
argument. -/
def readSide (command : Option CommandName) (o : Options) (pending : Option OptionName) :
    List String → Side
  | [] => if pending.isSome then .wrong else .read o none
  | arg :: args =>
      match Word.ofText arg, pending with
      | .plain value, some name =>
          match o.set name value with
          | some o => readSide command o none args
          | none => .wrong
      | _, some _ => .wrong
      | .plain text, none => .read o (some (text, args))
      | .escape, none => if args.isEmpty then .read o none else .wrong
      | .long name value, none =>
          match OptionName.ofLong? command name with
          | none => .wrong
          | some .help => if value.isSome then .wrong else .help
          | some name =>
              if name.takesValue then
                match value with
                | none => readSide command o (some name) args
                | some value =>
                    match o.set name value with
                    | some o => readSide command o none args
                    | none => .wrong
              else
                match value, o.set name "" with
                | none, some o => readSide command o none args
                | _, _ => .wrong
      | .short letters, none =>
          match readLetters o letters with
          | .wrong => .wrong
          | .help => .help
          | .read o needsValue => readSide command o needsValue args

/-- The command of its name and its options. -/
def commandOf (name : CommandName) (o : Options) : Command :=
  match name with
  | .scan => .scan o.group o.json
  | .watch => .watch o.group
  | .config => .config

/-- What the arguments behind the word for help lead to. -/
def helpOn : List String → Intent
  | [] => .help none
  | [topic] =>
      match CommandName.ofText? topic with
      | some name => .help (some name)
      | none => if topic = "help" then .help none else .usage
  | _ => .usage

def Intent.ofArguments (args : List String) : Intent :=
  match readSide none .none none args with
  | .wrong => .usage
  | .help => .help none
  | .read _ none => .usage
  | .read outer (some (word, rest)) =>
      if word = "help" then helpOn rest
      else
        match CommandName.ofText? word with
        | none => .usage
        | some name =>
            match readSide (some name) .none none rest with
            | .wrong => .usage
            | .help => .help (some name)
            | .read _ (some _) => .usage
            | .read inner none =>
                .run ⟨inner.root <|> outer.root, inner.settings <|> outer.settings,
                  commandOf name inner⟩

end ProblemBoard.CommandLine
