/-!
# Help

What the program tells of its command line: in short, one line an option, and in full.
-/

namespace Chip8.CommandLine

/-- The help in short. -/
def shortHelp : String :=
  "A CHIP-8 interpreter for the terminal

Usage: chip8vm [OPTIONS]

Options:
      --rom <ROM>                program image to load at 0x200 [default: roms/ibm_logo.ch8]
      --rate <RATE>              instructions per second [default: 500]
      --quirks <QUIRKS>          how to run the ambiguous opcodes [default: modern] [possible values: legacy, modern]
      --debug                    start paused in the console debugger
      --breakpoint <BREAKPOINT>  pause in the console debugger at this address (hex)
      --mute                     no beeper
      --seed <SEED>              seed for the random number instruction
      --cycles <CYCLES>          stop after this many instructions
      --disassemble              print the program as instructions and exit
  -h, --help                     Print help (see more with '--help')
"

/-- An option with its explanation, in full. -/
def fullEntry (option explanation : String) : String :=
  "      " ++ option ++ "\n          " ++ explanation ++ "\n"

/-- The note of an option's usual value. -/
def usualValue (value : String) : String :=
  "          \n          [default: " ++ value ++ "]\n"

/-- The help in full. -/
def fullHelp : String :=
  "A CHIP-8 interpreter for the terminal\n\nUsage: chip8vm [OPTIONS]\n\nOptions:\n" ++
  "\n".intercalate
    [fullEntry "--rom <ROM>" "program image to load at 0x200" ++ usualValue "roms/ibm_logo.ch8",
      fullEntry "--rate <RATE>" "instructions per second" ++ usualValue "500",
      fullEntry "--quirks <QUIRKS>" "how to run the ambiguous opcodes" ++
        "\n          Possible values:\n          - legacy: COSMAC VIP behaviour\n" ++
        "          - modern: CHIP-48 / SUPER-CHIP era behaviour\n" ++ usualValue "modern",
      fullEntry "--debug" "start paused in the console debugger",
      fullEntry "--breakpoint <BREAKPOINT>"
        "pause in the console debugger at this address (hex)",
      fullEntry "--mute" "no beeper",
      fullEntry "--seed <SEED>" "seed for the random number instruction",
      fullEntry "--cycles <CYCLES>" "stop after this many instructions",
      fullEntry "--disassemble" "print the program as instructions and exit",
      "  -h, --help\n          Print help (see a summary with '-h')\n"]

/-- The help as it is asked for. -/
def help (full : Bool) : String := if full then fullHelp else shortHelp

end Chip8.CommandLine
