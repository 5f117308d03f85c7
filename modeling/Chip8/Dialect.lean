/-!
# Dialects

Two readings of the instructions that the machine's makers and its later users understood
differently.

| word              | legacy               | modern           |
|-------------------|----------------------|------------------|
| `8XY1` to `8XY3`  | `VF` becomes zero    | `VF` is kept     |
| `8XY6`, `8XYE`    | shifts `VY` into `VX`| shifts `VX`      |
| `BNNN`            | jumps to `NNN + V0`  | to `NNN + VX`    |
| `FX55`, `FX65`    | `I` grows by `X + 1` | `I` is kept      |
-/

namespace Chip8

/-- Which reading a machine follows. -/
inductive Dialect
  | legacy
  | modern
  deriving DecidableEq, Repr

/-- The dialect's name. -/
def Dialect.name : Dialect → String
  | .legacy => "Legacy"
  | .modern => "Modern"

end Chip8
