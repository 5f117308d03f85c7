import Chip8.CommandLine
import Chip8.CommandLine.Help
import Chip8.Listing
import Chip8.Memory

/-!
# Ends of the program

What the program prints and the code it ends with, where it ends without running the machine: on a
command line that asks for help or cannot be read, on a file that cannot be read, and after a
listing. A listing that cannot count to its end is printed as far as it goes.
-/

namespace Chip8

/-- How the program ends. -/
structure Exit where
  code : Nat
  output : String := ""
  deriving DecidableEq, Repr

namespace Exit

/-- The end on a command line without arguments. -/
def ofArgumentError : ArgumentError → Exit
  | .displayHelp full => ⟨0, CommandLine.help full⟩
  | _ => { code := 2 }

/-- The end on a file that cannot be read. -/
def unreadable : Exit := { code := 1 }

/-- The lines of a listing in text. -/
def listingText (listing : Listing) : String :=
  String.join (listing.entries.map fun entry => entry.text ++ "\n")

/-- The end after a listing. -/
def ofListing (listing : Listing) : Exit :=
  ⟨if listing.complete then 0 else 101, listingText listing⟩

/-- The end of a run that lists a program: `file?` gives the bytes of the files that can be read. -/
def ofListingRun (words : List String) (file? : String → Option (List UInt8)) : Exit :=
  match CommandLine.read words with
  | .error error => ofArgumentError error
  | .ok arguments =>
    match file? arguments.rom with
    | none => unreadable
    | some image => ofListing (disassemble Memory.programStart image)

end Exit

end Chip8
