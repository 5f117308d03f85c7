/-!
# The console's input

The console is read line by line from bytes that are given beforehand. A line is taken whole, with
its newline, and is gone whether or not it is UTF-8; the last line may lack the newline.

* `readLine`: a line's text, `none` if it is not UTF-8, and the bytes behind the line;
* `length_rest_lt`: a line takes at least one byte of what there is.
-/

namespace Chip8.Console

/-- The byte that ends a line. -/
def newline : UInt8 := 10

/-- The first line with its newline, and the bytes behind it. -/
def splitLine : List UInt8 → List UInt8 × List UInt8
  | [] => ([], [])
  | byte :: rest =>
    if byte = newline then ([byte], rest)
    else
      let (line, behind) := splitLine rest
      (byte :: line, behind)

/-- The text of bytes, if they are UTF-8. -/
def decode? (bytes : List UInt8) : Option (List Char) :=
  bytes.toByteArray.utf8Decode?.map Array.toList

/-- The first line's text, and the bytes behind the line. -/
def readLine (input : List UInt8) : Option (List Char) × List UInt8 :=
  let (line, behind) := splitLine input
  (decode? line, behind)

theorem splitLine_append (input : List UInt8) :
    (splitLine input).1 ++ (splitLine input).2 = input := by
  induction input with
  | nil => rfl
  | cons byte rest ih =>
    by_cases h : byte = newline
    · simp [splitLine, h]
    · simp [splitLine, h, ih]

theorem length_rest_le (input : List UInt8) : (readLine input).2.length ≤ input.length := by
  have h := congrArg List.length (splitLine_append input)
  simp only [List.length_append] at h
  simp only [readLine]
  omega

theorem length_rest_lt {input : List UInt8} (h : input ≠ []) :
    (readLine input).2.length < input.length := by
  cases input with
  | nil => exact absurd rfl h
  | cons byte rest =>
    by_cases hb : byte = newline
    · simp [readLine, splitLine, hb]
    · have := length_rest_le rest
      simp only [readLine, splitLine, hb, if_false, List.length_cons] at this ⊢
      omega

end Chip8.Console
