import Chip8.Dialect
import Chip8.Text.Address

/-!
# The command line

Options are long words with one value each, `--rate 60` or `--rate=60`; switches are long words
without one. Each may be given once. Nothing else is allowed but a request for help and a last `--`.

Words are read from the left. A value in a word of its own is judged only when the reader comes to
the next option, switch or request for help, or to the end; so a word that is nothing at all is
reported in front of a bad value before it, and everything else behind it.
-/

namespace Chip8

open Text (readNumeral readMarkedAddress)

/-- What the command line settles. -/
structure Arguments where
  rom : String := "roms/ibm_logo.ch8"
  rate : UInt32 := 500
  dialect : Dialect := .modern
  debug : Bool := false
  breakpoint : Option UInt16 := none
  mute : Bool := false
  seed : Option UInt64 := none
  cycles : Option UInt64 := none
  disassemble : Bool := false
  deriving DecidableEq, Repr

/-- Why there are no arguments. -/
inductive ArgumentError
  /-- An option has no value, or none of its words. -/
  | invalidValue
  /-- An option's value cannot be read. -/
  | valueValidation
  /-- A word is nothing at all. -/
  | unknownArgument
  /-- An option or a switch is given twice. -/
  | argumentConflict
  /-- A switch is given a value. -/
  | tooManyValues
  /-- Help is asked for, in full or in short. -/
  | displayHelp (full : Bool)
  deriving DecidableEq, Repr

namespace CommandLine

/-! ## Options and switches -/

/-- The options, each with a value. -/
inductive Setting
  | rom
  | rate
  | dialect
  | breakpoint
  | seed
  | cycles
  deriving DecidableEq, Repr

/-- The switches. -/
inductive Switch
  | debug
  | mute
  | disassemble
  deriving DecidableEq, Repr

/-- What a long word names. -/
inductive Name
  | setting (setting : Setting)
  | switch (switch : Switch)
  | help
  deriving DecidableEq, Repr

/-- The long words. -/
def names : List (String × Name) :=
  [("rom", .setting .rom), ("rate", .setting .rate), ("quirks", .setting .dialect),
    ("debug", .switch .debug), ("breakpoint", .setting .breakpoint), ("mute", .switch .mute),
    ("seed", .setting .seed), ("cycles", .setting .cycles), ("disassemble", .switch .disassemble),
    ("help", .help)]

/-- A number below `limit` as an option's value. -/
def number (limit : Nat) (text : String) : Except ArgumentError Nat :=
  (readNumeral 10 limit text.toList).mapError fun _ => .valueValidation

/-- The arguments with an option's value read into them. -/
def assign (a : Arguments) (setting : Setting) (text : String) : Except ArgumentError Arguments :=
  match setting with
  | .rom => if text = "" then .error .invalidValue else .ok { a with rom := text }
  | .rate => do
    let rate ← number UInt32.size text
    if rate = 0 then .error .valueValidation else .ok { a with rate := UInt32.ofNat rate }
  | .dialect =>
    if text = "legacy" then .ok { a with dialect := .legacy }
    else if text = "modern" then .ok { a with dialect := .modern }
    else .error .invalidValue
  | .breakpoint => do
    let addr ← (readMarkedAddress text.toList).mapError fun _ => .valueValidation
    .ok { a with breakpoint := some addr }
  | .seed => do
    let seed ← number UInt64.size text
    .ok { a with seed := some (UInt64.ofNat seed) }
  | .cycles => do
    let cycles ← number UInt64.size text
    .ok { a with cycles := some (UInt64.ofNat cycles) }

/-- The arguments with a switch on. -/
def turnOn (a : Arguments) : Switch → Arguments
  | .debug => { a with debug := true }
  | .mute => { a with mute := true }
  | .disassemble => { a with disassemble := true }

/-! ## Words -/

/-- What a word looks like. -/
inductive Word
  /-- `--` -/
  | separator
  /-- `--name` or `--name=value` -/
  | long (name : String) (value : Option String)
  /-- One dash and letters behind it. -/
  | short (letter : Char)
  /-- Anything else, `-` and the empty word among it. -/
  | plain (text : String)
  deriving DecidableEq, Repr

/-- Splits the text of a long word at its first `=`. -/
def splitValue (text : List Char) : Word :=
  .long (String.ofList (text.takeWhile (· != '='))) <|
    match text.dropWhile (· != '=') with
    | _ :: value => some (String.ofList value)
    | [] => none

/-- What a word looks like. -/
def Word.of (text : String) : Word :=
  match text.toList with
  | ['-', '-'] => .separator
  | '-' :: '-' :: rest => splitValue rest
  | '-' :: letter :: _ => .short letter
  | _ => .plain text

/-! ## Reading -/

/-- An option whose value is not judged yet. -/
structure Pending where
  setting : Setting
  value : Option String
  deriving DecidableEq, Repr

/-- How far the reader has come. -/
structure Progress where
  arguments : Arguments := {}
  given : List Name := []
  pending : Option Pending := none
  deriving DecidableEq, Repr

namespace Progress

/-- Marks an option or a switch as given. -/
def give (p : Progress) (name : Name) : Except ArgumentError Progress :=
  if name ∈ p.given then .error .argumentConflict else .ok { p with given := name :: p.given }

/-- Takes an option's value. -/
def take (p : Progress) (setting : Setting) (text : String) : Except ArgumentError Progress := do
  let p ← p.give (.setting setting)
  return { p with arguments := ← assign p.arguments setting text }

/-- Judges the value that is not judged yet. -/
def settle (p : Progress) : Except ArgumentError Progress :=
  match p.pending with
  | none => .ok p
  | some ⟨_, none⟩ => .error .invalidValue
  | some ⟨setting, some text⟩ => { p with pending := none }.take setting text

/-- Takes a word that is no option and no switch: the value of the option in front of it. -/
def plain (p : Progress) (text : String) : Except ArgumentError Progress :=
  match p.pending with
  | some ⟨setting, none⟩ => .ok { p with pending := some ⟨setting, some text⟩ }
  | _ => .error .unknownArgument

/-- Takes a long word. -/
def long (p : Progress) (name : String) (value : Option String) :
    Except ArgumentError Progress :=
  match names.lookup name, value with
  | none, _ => .error .unknownArgument
  | some (.setting setting), some text => do (← p.settle).take setting text
  | some (.setting setting), none => do
    return { ← p.settle with pending := some ⟨setting, none⟩ }
  | some _, some _ => .error .tooManyValues
  | some (.switch switch), none => do
    let p ← (← p.settle).give (.switch switch)
    return { p with arguments := turnOn p.arguments switch }
  | some .help, none => do
    let _ ← p.settle
    .error (.displayHelp true)

/-- Takes a short word. -/
def short (p : Progress) (letter : Char) : Except ArgumentError Progress :=
  if letter = 'h' then do
    let _ ← p.settle
    .error (.displayHelp false)
  else .error .unknownArgument

end Progress

/-- Reads the words that are left. -/
def readWords (p : Progress) : List String → Except ArgumentError Arguments
  | [] => do return (← p.settle).arguments
  | text :: rest =>
    match Word.of text with
    | .separator =>
      if rest = [] then do return (← p.settle).arguments else .error .unknownArgument
    | .long name value => do readWords (← p.long name value) rest
    | .short letter => do readWords (← p.short letter) rest
    | .plain text => do readWords (← p.plain text) rest

/-- The arguments in the words of a command line. -/
def read (words : List String) : Except ArgumentError Arguments := readWords {} words

end CommandLine

end Chip8
