import RomArchive.Config

/-!
# The command line

The program is called with a file, possibly an entry of it, and options. Short options may be
joined (`-lq`), and the value of an option may follow it directly, after an equals sign, or as the
next argument; after `--` everything is a file or an entry. An option that takes a value is not
complete before the next argument has been looked at, so what is wrong with its value shows only
when it is settled. An argument that is unknown is reported before that.

## Main definitions

* `Options` — what a command line asks for.
* `CommandLine.Stop` — why a command line is not carried out.
* `CommandLine.parse` — the options of a list of arguments.
* `Options.wanted`, `Options.settings` — the extensions looked for, the settings of the session.
-/

namespace RomArchive

/-- What a command line asks for. -/
structure Options where
  file : String
  entry : Option String
  list : Bool
  verbose : Bool
  extensions : List String
  scratchRoot : Option String
  pipe : Bool
  counterNames : Bool
  keepExisting : Bool
  strict : Bool
  quiet : Nat
  deriving DecidableEq

namespace Options

/-- The options of a command line that names nothing but a file. -/
def ofFile (file : String) : Options :=
  ⟨file, none, false, false, [], none, false, false, false, false, 0⟩

def isQuiet (options : Options) : Bool :=
  decide (0 < options.quiet) || options.pipe

def isVeryQuiet (options : Options) : Bool :=
  decide (1 < options.quiet)

/-- The extensions to look for, if any were given. -/
def wanted (options : Options) : Option (List String) :=
  if options.extensions = [] then none else some options.extensions

/-- The settings of the session that carries out these options. -/
def settings (options : Options) (temporary : String) : Settings where
  scratchRoot := options.scratchRoot.getD (Settings.standardScratchRoot temporary)
  naming := if options.counterNames then .counter else .unique
  existing := if options.keepExisting then .fail else .overwrite
  unreadable := if options.strict then .abort else .skip
  maxEntrySize := Settings.standardMaxEntrySize

end Options

namespace CommandLine

/-- Why a command line is not carried out. -/
inductive Stop where
  | helpRequested
  | versionRequested
  | missingFile
  | unknownArgument
  | invalidValue
  | repeatedOption
  | unexpectedValue
  deriving DecidableEq

/-- Options without a value. -/
inductive Flag where
  | list
  | verbose
  | pipe
  | counterNames
  | keepExisting
  | strict
  | quiet
  | help
  | version
  deriving DecidableEq

/-- What takes a value. -/
inductive Slot where
  | extensions
  | scratchRoot
  | file
  | entry
  deriving DecidableEq

/-- A slot that is not settled yet, and its value if that was seen. -/
structure Pending where
  slot : Slot
  value : Option String
  deriving DecidableEq

/-- What is known after some of the arguments. `operands` counts the arguments that are no options,
`isTrailing` says that only such are left. -/
structure Progress where
  options : Options
  file : Option String
  pending : Option Pending
  isTrailing : Bool
  operands : Nat
  deriving DecidableEq

def Progress.start : Progress :=
  ⟨Options.ofFile "", none, none, false, 0⟩

/-! ### Values -/

/-- The parts of a text between commas, empty ones included. -/
def commaParts : List Char → List (List Char)
  | [] => [[]]
  | c :: cs =>
    if c = ',' then [] :: commaParts cs
    else
      match commaParts cs with
      | [] => [[c]]
      | part :: others => (c :: part) :: others

/-- Give a value to a slot. -/
def assign (slot : Slot) (value : String) (progress : Progress) : Except Stop Progress :=
  let options := progress.options
  match slot with
  | .extensions =>
    let added := (commaParts value.toList).map String.ofList
    .ok { progress with options := { options with extensions := options.extensions ++ added } }
  | .scratchRoot =>
    if options.scratchRoot.isSome then .error .repeatedOption
    else if value = "" then .error .invalidValue
    else .ok { progress with options := { options with scratchRoot := some value } }
  | .file => if value = "" then .error .invalidValue else .ok { progress with file := some value }
  | .entry => .ok { progress with options := { options with entry := some value } }

/-- Settle the slot that is not settled yet. -/
def settle (progress : Progress) : Except Stop Progress :=
  match progress.pending with
  | none => .ok progress
  | some ⟨slot, some value⟩ => assign slot value { progress with pending := none }
  | some ⟨_, none⟩ => .error .invalidValue

/-- Give a value to a slot after the one before it was settled. -/
def settleAndAssign (slot : Slot) (value : String) (progress : Progress) :
    Except Stop Progress := do
  assign slot value (← settle progress)

/-- Leave a slot unsettled after the one before it was settled. -/
def settleAndAwait (pending : Pending) (progress : Progress) : Except Stop Progress := do
  return { ← settle progress with pending := some pending }

/-! ### Flags -/

/-- Set a flag that may be given once. -/
def setOnce (isSet : Bool) (options : Options) (progress : Progress) : Except Stop Progress :=
  if isSet then .error .repeatedOption else .ok { progress with options := options }

/-- Set a flag. -/
def setFlag (flag : Flag) (progress : Progress) : Except Stop Progress :=
  let options := progress.options
  match flag with
  | .list => setOnce options.list { options with list := true } progress
  | .verbose => setOnce options.verbose { options with verbose := true } progress
  | .pipe => setOnce options.pipe { options with pipe := true } progress
  | .counterNames => setOnce options.counterNames { options with counterNames := true } progress
  | .keepExisting => setOnce options.keepExisting { options with keepExisting := true } progress
  | .strict => setOnce options.strict { options with strict := true } progress
  | .quiet => .ok { progress with options := { options with quiet := min 255 (options.quiet + 1) } }
  | .help => .error .helpRequested
  | .version => .error .versionRequested

/-- Set a flag after the slot before it was settled. -/
def settleAndSet (flag : Flag) (progress : Progress) : Except Stop Progress := do
  setFlag flag (← settle progress)

/-! ### Arguments -/

/-- The option that a letter stands for. -/
def shortOption? (letter : Char) : Option (Flag ⊕ Slot) :=
  match letter with
  | 'l' => some (.inl .list)
  | 'v' => some (.inl .verbose)
  | 'p' => some (.inl .pipe)
  | 'q' => some (.inl .quiet)
  | 'h' => some (.inl .help)
  | 'V' => some (.inl .version)
  | 'e' => some (.inr .extensions)
  | 'd' => some (.inr .scratchRoot)
  | _ => none

/-- The option that a word stands for. -/
def longOption? (word : String) : Option (Flag ⊕ Slot) :=
  match word with
  | "ext" => some (.inr .extensions)
  | "counter-names" => some (.inl .counterNames)
  | "no-overwrite" => some (.inl .keepExisting)
  | "strict" => some (.inl .strict)
  | "help" => some (.inl .help)
  | "version" => some (.inl .version)
  | _ => none

/-- A value that follows its option directly, with or without an equals sign. -/
def attachedValue : List Char → String
  | '=' :: value => String.ofList value
  | value => String.ofList value

/-- The letters behind a single dash. -/
def shortOptions : List Char → Progress → Except Stop Progress
  | [], progress => .ok progress
  | letter :: letters, progress =>
    match shortOption? letter with
    | none => .error .unknownArgument
    | some (.inl flag) => do shortOptions letters (← settleAndSet flag progress)
    | some (.inr slot) =>
      if letters = [] then settleAndAwait ⟨slot, none⟩ progress
      else settleAndAssign slot (attachedValue letters) progress

/-- The word behind two dashes, and the value behind an equals sign if there is one. -/
def longOption (word : List Char) (progress : Progress) : Except Stop Progress :=
  let name := String.ofList (word.takeWhile (· ≠ '='))
  let value? := match word.dropWhile (· ≠ '=') with
    | [] => none
    | _ :: value => some (String.ofList value)
  match longOption? name, value? with
  | none, _ => .error .unknownArgument
  | some (.inl flag), none => settleAndSet flag progress
  | some (.inl _), some _ => .error .unexpectedValue
  | some (.inr slot), none => settleAndAwait ⟨slot, none⟩ progress
  | some (.inr slot), some value => settleAndAssign slot value progress

/-- A file or an entry. -/
def operand (value : String) (progress : Progress) : Except Stop Progress :=
  match progress.operands with
  | 0 => settleAndAwait ⟨.file, some value⟩ { progress with operands := 1 }
  | 1 => settleAndAwait ⟨.entry, some value⟩ { progress with operands := 2 }
  | _ => .error .unknownArgument

/-- An argument that is no option: the value that an option waits for, or an operand. -/
def plain (value : String) (progress : Progress) : Except Stop Progress :=
  match progress.pending with
  | some ⟨slot, none⟩ => .ok { progress with pending := some ⟨slot, some value⟩ }
  | _ => operand value progress

/-- One argument. -/
def argument (progress : Progress) (text : String) : Except Stop Progress :=
  if progress.isTrailing then operand text progress
  else
    match text.toList with
    | ['-', '-'] => .ok { progress with isTrailing := true }
    | '-' :: '-' :: word => longOption word progress
    | '-' :: letter :: letters => shortOptions (letter :: letters) progress
    | _ => plain text progress

/-- What the environment says about the scratch directory counts if the arguments do not. -/
def environment (scratchRoot : Option String) (progress : Progress) : Except Stop Progress :=
  match scratchRoot with
  | some value =>
    if progress.options.scratchRoot.isSome then .ok progress
    else assign .scratchRoot value progress
  | none => .ok progress

/-- The options of a list of arguments. -/
def parse (arguments : List String) (scratchRoot : Option String) : Except Stop Options := do
  let progress ← arguments.foldlM argument Progress.start
  let progress ← settle progress
  let progress ← environment scratchRoot progress
  match progress.file with
  | some file => return { progress.options with file := file }
  | none => throw .missingFile

end CommandLine

end RomArchive
