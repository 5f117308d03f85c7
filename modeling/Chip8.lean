import Chip8.Canvas
import Chip8.Keyboard
import Chip8.Main
import Chip8.Proofs.Machine.Run
import Chip8.Proofs.Machine.Bounds
import Chip8.Proofs.Machine.Writes
import Chip8.Proofs.Machine.Keys
import Chip8.Proofs.Machine.KeyWait
import Chip8.Proofs.Machine.WaitHistory
import Chip8.Proofs.Act
import Chip8.Proofs.Emulator.Stages
import Chip8.Proofs.Debugger
import Chip8.Proofs.Emulator.Cycle
import Chip8.Proofs.Emulator.Calls
import Chip8.Proofs.Emulator.KeyRelease
import Chip8.Proofs.Emulator.Debugging
import Chip8.Proofs.Machine.Faults
import Chip8.Proofs.Machine.Subroutines
import Chip8.Proofs.Machine.Dialects
import Chip8.Proofs.Debugger.Session
import Chip8.Proofs.Terminal
import Chip8.Proofs.Emulator.Terminal
import Chip8.Proofs.Screen.Overlay
import Chip8.Proofs.Timers
import Chip8.Proofs.Emulator.Executions
import Chip8.Proofs.Emulator.Plain
import Chip8.Proofs.Emulator.Frames
import Chip8.Proofs.Machine.Timers
import Chip8.Proofs.Emulator.Timekeeping
import Chip8.Proofs.Machine.Senses
import Chip8.Proofs.Emulator.Senses
import Chip8.Proofs.Instruction
import Chip8.Proofs.Listing
import Chip8.Proofs.Machine.Perform
import Chip8.Proofs.Machine.Cells
import Chip8.Proofs.Machine.Programs
import Chip8.Proofs.Machine.Failures
import Chip8.Proofs.Machine.Effects
import Chip8.Proofs.Machine.Font
import Chip8.Proofs.Machine.Arithmetic
import Chip8.Proofs.Machine.Random
import Chip8.Proofs.Screen.Count
import Chip8.Proofs.Machine.Drawing
import Chip8.Proofs.Emulator.Silence
import Chip8.Proofs.Emulator.Beeper
import Chip8.Proofs.Machine.Transfers
import Chip8.Proofs.Console
import Chip8.Proofs.Debugger.Requests
import Chip8.Proofs.Debugger.Breakpoint
import Chip8.Proofs.Debugger.Padding
import Chip8.Proofs.Since
import Chip8.Proofs.Keypad.History
import Chip8.Proofs.Keyboard.History
import Chip8.Proofs.Emulator.CutShort
import Chip8.Proofs.Emulator.Loop
import Chip8.Proofs.Text.Address
import Chip8.Proofs.Memory.History
import Chip8.Proofs.Canvas
