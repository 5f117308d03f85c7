import Chip8.Proofs.Console
import Chip8.Proofs.Debugger.Requests

/-!
# Lines that do not count

Some of what can be typed at a paused debugger makes it talk and nothing else: a line that asks for
the machine or the help, a line that is no command, and a request for a breakpoint whose address is
then refused. Such lines can stand wherever a command is read, and the address of a breakpoint can
stand on a line of its own (`Padded`), with no consequence but for what is printed.

* `talk`: what a talk comes to, apart from what is seen of it;
* `talk_padded`: a talk comes to the same on a padded console;
* `padding_ignored`: so does whatever is asked of a debugger.
-/

namespace Chip8.Debugger

open Console (IsLine decode? encode line newline readLine)

variable {bytes answer input padded rest : List UInt8} {d : Debugger}

/-! ## Talks without what is seen of them -/

/-- What a talk comes to, apart from what is seen of it. -/
def talk (d : Debugger) (m : Machine) : Result Flow × Debugger :=
  ((d.converse m false).result, (d.converse m false).state)

/-- What the answer to the question for an address comes to. -/
def answered (d : Debugger) (m : Machine) : Option (List Char) → Result Flow × Debugger
  | none => (.error malformedLine, d)
  | some answer =>
    match Text.readAddress? answer with
    | some addr => (.ok .proceed, d.runTo addr)
    | none => d.talk m

/-- What a line comes to that is read as a command. -/
def heard (d : Debugger) (m : Machine) : Option (List Char) → Result Flow × Debugger
  | none => (.error malformedLine, d)
  | some line =>
    match Command.parse? line with
    | none | some .state | some .help => d.talk m
    | some .proceed => (.ok .proceed, { d with paused := false })
    | some .next => (.ok .proceed, d)
    | some .quit => (.ok .quit, d)
    | some (.breakpoint (some addr)) => (.ok .proceed, d.runTo addr)
    | some (.breakpoint none) =>
      { d with console := (readLine d.console).2 }.answered m (readLine d.console).1

/-- Whether the status was shown before makes no difference. -/
theorem talk_of_announced (d : Debugger) (m : Machine) (announced : Bool) :
    ((d.converse m announced).result, (d.converse m announced).state) = d.talk m := by
  unfold talk
  rw [converse, converse]
  rfl

/-- A talk reads a line and goes by it, unless the input has ended. -/
theorem talk_eq (m : Machine) (hsome : d.console ≠ []) :
    d.talk m = { d with console := (readLine d.console).2 }.heard m (readLine d.console).1 := by
  unfold talk heard answered
  rw [converse, dif_neg hsome]
  dsimp only [Outcome.after]
  rcases (readLine d.console).1 with _ | line
  · rfl
  dsimp only
  cases Command.parse? line with
  | none => exact talk_of_announced _ m true
  | some command =>
    cases command with
    | state | help | proceed | next | quit => rfl
    | breakpoint addr =>
      cases addr with
      | some addr => rfl
      | none =>
        dsimp only
        rcases (readLine (readLine d.console).2).1 with _ | answer
        · rfl
        dsimp only
        cases Text.readAddress? answer <;> rfl

theorem talk_line (m : Machine) (complete : IsLine bytes) :
    { d with console := bytes ++ rest }.talk m =
      { d with console := rest }.heard m (decode? bytes) := by
  rw [talk_eq m (complete.append_ne_nil rest)]
  dsimp only
  rw [Console.readLine_append complete]

/-! ## Padded consoles -/

/-- The line is a command to set a breakpoint, without its address. -/
def AsksAddress (bytes : List UInt8) : Prop :=
  ∃ text, decode? bytes = some text ∧ Command.parse? text = some (.breakpoint none)

/-- The line shows something, or is no command. -/
def Idle (bytes : List UInt8) : Prop :=
  ∃ text, decode? bytes = some text ∧
    Command.parse? text ∈ [none, some Command.state, some Command.help]

/-- The line is text, and no address. -/
def NoAddress (bytes : List UInt8) : Prop :=
  ∃ text, decode? bytes = some text ∧ Text.readAddress? text = none

/-- The second input is the first, with lines put in or broken in two wherever a command is read.
Behind a `b` that asks for its address the next line is the answer, and belongs to it. -/
inductive Padded : List UInt8 → List UInt8 → Prop
  /-- From here on nothing is changed. -/
  | unchanged (rest : List UInt8) : Padded rest rest
  /-- A line is read as a command. -/
  | command {bytes rest padded : List UInt8} (complete : IsLine bytes) (whole : ¬ AsksAddress bytes)
      (behind : Padded rest padded) : Padded (bytes ++ rest) (bytes ++ padded)
  /-- A line is read as a command, and the next one as its address. -/
  | question {bytes answer rest padded : List UInt8} (complete : IsLine bytes)
      (asks : AsksAddress bytes) (answered : IsLine answer) (behind : Padded rest padded) :
      Padded (bytes ++ (answer ++ rest)) (bytes ++ (answer ++ padded))
  /-- A line is put in. -/
  | idle {bytes rest padded : List UInt8} (complete : IsLine bytes) (idle : Idle bytes)
      (behind : Padded rest padded) : Padded rest (bytes ++ padded)
  /-- Two lines are put in, the second of which is refused as an address. -/
  | refused {bytes answer rest padded : List UInt8} (complete : IsLine bytes)
      (asks : AsksAddress bytes) (answered : IsLine answer) (refused : NoAddress answer)
      (behind : Padded rest padded) : Padded rest (bytes ++ (answer ++ padded))
  /-- A `b` and what stands behind it are put on lines of their own. -/
  | apart {operand : List Char} {rest padded : List UInt8} (single : '\n' ∉ operand)
      (nonblank : Text.allBlank operand = false) (behind : Padded rest padded) :
      Padded (line ('b' :: ' ' :: operand) ++ rest) (line ['b'] ++ (line operand ++ padded))
  /-- The same, at the end of an input that does not end with a newline. -/
  | apartLast {operand : List Char} (single : '\n' ∉ operand)
      (nonblank : Text.allBlank operand = false) :
      Padded (encode ('b' :: ' ' :: operand)) (line ['b'] ++ encode operand)

/-- The two debuggers differ in their consoles at most, and the second one's is padded. -/
def Alike (d d' : Debugger) : Prop :=
  ∃ padded, Padded d.console padded ∧ d' = { d with console := padded }

/-- Two talks come to the same, on consoles of which the second is padded. -/
def EndAlike (o o' : Result Flow × Debugger) : Prop :=
  o'.1 = o.1 ∧ Alike o.2 o'.2

/-! ## Talks on padded consoles -/

theorem talk_asked (m : Machine) (complete : IsLine bytes) (asks : AsksAddress bytes) :
    { d with console := bytes ++ rest }.talk m =
      { d with console := (readLine rest).2 }.answered m (readLine rest).1 := by
  obtain ⟨text, hread, hparse⟩ := asks
  rw [talk_line m complete, hread, heard]
  dsimp only
  rw [hparse]

theorem talk_idle (m : Machine) (complete : IsLine bytes) (idle : Idle bytes) :
    { d with console := bytes ++ rest }.talk m = { d with console := rest }.talk m := by
  obtain ⟨text, hread, hidle⟩ := idle
  rw [talk_line m complete, hread, heard]
  simp only [List.mem_cons, List.not_mem_nil, or_false] at hidle
  rcases hidle with hparse | hparse | hparse <;> rw [hparse]

theorem talk_refused (m : Machine) (complete : IsLine bytes) (asks : AsksAddress bytes)
    (answered : IsLine answer) (refused : NoAddress answer) :
    { d with console := bytes ++ (answer ++ rest) }.talk m = { d with console := rest }.talk m := by
  obtain ⟨text, hread, hnone⟩ := refused
  rw [talk_asked m complete asks, Console.readLine_append answered, hread, Debugger.answered]
  dsimp only
  rw [hnone]

/-- The newline at the end of a line does not count. -/
theorem heard_concat (d : Debugger) (m : Machine) (line : List Char) :
    d.heard m (some (line ++ ['\n'])) = d.heard m (some line) := by
  have hparse : Command.parse? (line ++ ['\n']) = Command.parse? line := by
    rw [Command.parse?, Command.parse?, Text.trim_concat line (by decide)]
  rw [heard, heard, hparse]

theorem answered_concat (d : Debugger) (m : Machine) (answer : List Char) :
    d.answered m (some (answer ++ ['\n'])) = d.answered m (some answer) := by
  rw [answered, answered, Text.readAddress?_congr (Text.trim_concat answer (by decide))]

/-- What stands behind a `b` is read as the answer to the question would be. -/
theorem heard_operand (d : Debugger) (m : Machine) {operand : List Char}
    (hsome : Text.allBlank operand = false) :
    d.heard m (some ('b' :: ' ' :: operand)) = d.answered m (some operand) := by
  have htrim : Text.trim (' ' :: operand) = Text.trim operand :=
    Text.trim_cons operand (by decide)
  have hparse : Command.parse? ('b' :: ' ' :: operand) =
      (Text.readAddress? operand).map fun addr => .breakpoint (some addr) := by
    rw [Command.parse?_b, Text.allBlank_congr htrim, hsome, Text.readAddress?_congr htrim,
      if_neg Bool.false_ne_true]
  rw [heard, answered, hparse]
  cases Text.readAddress? operand <;> rfl

theorem isLine_b : IsLine (line ['b']) := Console.isLine_line (by decide)

theorem asksAddress_b : AsksAddress (line ['b']) := ⟨_, Console.decode?_line _, by decide⟩

variable {m : Machine}

theorem answered_alike (behind : Padded rest padded)
    (htalk : ∀ d : Debugger, EndAlike ({ d with console := rest }.talk m)
      ({ d with console := padded }.talk m)) (d : Debugger) (answer : Option (List Char)) :
    EndAlike ({ d with console := rest }.answered m answer)
      ({ d with console := padded }.answered m answer) := by
  unfold answered
  cases answer with
  | none => exact ⟨rfl, padded, behind, rfl⟩
  | some answer =>
    dsimp only
    cases Text.readAddress? answer with
    | none => exact htalk d
    | some addr => exact ⟨rfl, padded, behind, rfl⟩

theorem heard_alike (behind : Padded rest padded)
    (htalk : ∀ d : Debugger, EndAlike ({ d with console := rest }.talk m)
      ({ d with console := padded }.talk m)) (d : Debugger) (whole : ¬ AsksAddress bytes) :
    EndAlike ({ d with console := rest }.heard m (decode? bytes))
      ({ d with console := padded }.heard m (decode? bytes)) := by
  unfold heard
  cases hread : decode? bytes with
  | none => exact ⟨rfl, padded, behind, rfl⟩
  | some line =>
    dsimp only
    cases hparse : Command.parse? line with
    | none => exact htalk d
    | some command =>
      cases command with
      | state | help => exact htalk d
      | proceed | next | quit => exact ⟨rfl, padded, behind, rfl⟩
      | breakpoint addr =>
        cases addr with
        | some addr => exact ⟨rfl, padded, behind, rfl⟩
        | none => exact absurd ⟨line, hread, hparse⟩ whole

/-- **A talk comes to the same on a padded console.** -/
theorem talk_padded (h : Padded input padded) (m : Machine) (d : Debugger) :
    EndAlike ({ d with console := input }.talk m) ({ d with console := padded }.talk m) := by
  induction h generalizing d with
  | unchanged rest => exact ⟨rfl, _, .unchanged _, rfl⟩
  | command complete whole behind ih =>
    rw [talk_line m complete, talk_line m complete]
    exact heard_alike behind ih d whole
  | question complete asks answered behind ih =>
    rw [talk_asked m complete asks, talk_asked m complete asks, Console.readLine_append answered,
      Console.readLine_append answered]
    exact answered_alike behind ih d _
  | idle complete idle behind ih =>
    rw [talk_idle m complete idle]
    exact ih d
  | refused complete asks answered refused behind ih =>
    rw [talk_refused m complete asks answered refused]
    exact ih d
  | @apart operand rest padded single nonblank behind ih =>
    have hline : IsLine (line ('b' :: ' ' :: operand)) :=
      Console.isLine_line (by simpa using single)
    rw [talk_line m hline, Console.decode?_line, heard_concat, heard_operand _ m nonblank,
      talk_asked m isLine_b asksAddress_b, Console.readLine_line single, answered_concat]
    exact answered_alike behind ih d _
  | @apartLast operand single nonblank =>
    have hread : readLine (encode ('b' :: ' ' :: operand)) = (some ('b' :: ' ' :: operand), []) :=
      Console.readLine_encode (by simpa using single)
    have htyped : encode ('b' :: ' ' :: operand) ≠ [] := by
      intro hempty
      rw [hempty] at hread
      cases hread
    rw [talk_eq m htyped, talk_asked m isLine_b asksAddress_b, Console.readLine_encode single]
    dsimp only
    rw [hread, heard_operand _ m nonblank]
    exact ⟨rfl, _, .unchanged _, rfl⟩

/-! ## Steps and requests on padded consoles -/

theorem logLines_of_onConsole {events : List Event} (h : ∀ event ∈ events, event.OnConsole) :
    logLines events = [] :=
  filterMap_of_onConsole (fun _ => rfl) rfl h

/-- Two steps come to the same, on consoles of which the second is padded. -/
structure StepAlike (o o' : Outcome (Debugger × Machine) Flow) : Prop where
  result : o'.result = o.result
  debugger : Alike o.state.1 o'.state.1
  machine : o'.state.2 = o.state.2
  log : logLines o'.events = logLines o.events

theorem StepAlike.after {o o' : Outcome (Debugger × Machine) Flow} (h : StepAlike o o')
    {talk talk' : List Event} (ht : ∀ event ∈ talk, event.OnConsole)
    (ht' : ∀ event ∈ talk', event.OnConsole) : StepAlike (o.after talk) (o'.after talk') := by
  refine ⟨h.result, h.debugger, h.machine, ?_⟩
  have hlog : ∀ {o : Outcome (Debugger × Machine) Flow} {talk : List Event},
      (∀ event ∈ talk, event.OnConsole) → logLines (o.after talk).events = logLines o.events := by
    intro o talk ht
    rw [Outcome.after, logLines, List.filterMap_append]
    exact congrArg (· ++ logLines o.events) (logLines_of_onConsole ht)
  rw [hlog ht, hlog ht', h.log]

theorem advance_alike (h : Padded d.console padded) (m : Machine) :
    StepAlike (d.advance m) ({ d with console := padded }.advance m) := by
  rw [d.advance_withConsole m padded]
  refine ⟨rfl, ⟨padded, ?_, rfl⟩, rfl, rfl⟩
  rw [console_advance]
  exact h

/-- **A step comes to the same on a padded console.** -/
theorem step_alike (h : Padded d.console padded) (m : Machine) :
    StepAlike (d.step m) ({ d with console := padded }.step m) := by
  by_cases hp : d.paused = true
  · obtain ⟨hresult, hleft⟩ := talk_padded h m d
    have hseen := d.onConsole_converse m false
    have hseen' := { d with console := padded }.onConsole_converse m false
    unfold talk at hresult hleft
    rcases htalk : d.converse m false with ⟨r, left, events⟩
    rcases htalk' : { d with console := padded }.converse m false with ⟨r', left', events'⟩
    rw [step_of_paused hp htalk, step_of_paused (d := { d with console := padded }) hp htalk']
    rw [htalk] at hseen
    rw [htalk'] at hseen'
    rw [htalk, htalk'] at hresult hleft
    obtain rfl : r' = r := hresult
    split
    case isTrue =>
      obtain ⟨rest, hrest, rfl⟩ := hleft
      exact (advance_alike hrest m).after hseen hseen'
    case isFalse =>
      refine ⟨rfl, hleft, rfl, ?_⟩
      rw [logLines_of_onConsole hseen, logLines_of_onConsole hseen']
  · have hrunning : d.paused = false := by simpa using hp
    rw [step_of_running m hrunning, step_of_running m (d := { d with console := padded }) hrunning]
    exact advance_alike h m

/-- A request comes to the same on a padded console. -/
theorem serve_alike {s s' : Debugger × Machine} (h : Alike s.1 s'.1 ∧ s'.2 = s.2)
    (request : Request) :
    Alike (serve s request).1 (serve s' request).1 ∧
      (serve s' request).2 = (serve s request).2 := by
  obtain ⟨d, m⟩ := s
  obtain ⟨d', m'⟩ := s'
  obtain ⟨⟨padded, hpadded, hd⟩, hm⟩ := h
  obtain rfl : d' = { d with console := padded } := hd
  obtain rfl : m = m' := hm.symm
  cases request with
  | step => exact ⟨(step_alike hpadded m).debugger, (step_alike hpadded m).machine⟩
  | setBreakpoint addr => exact ⟨⟨padded, hpadded, rfl⟩, rfl⟩
  | act action => exact ⟨⟨padded, hpadded, rfl⟩, rfl⟩

theorem serveAll_alike (s s' : Debugger × Machine) (h : Alike s.1 s'.1 ∧ s'.2 = s.2)
    (requests : List Request) :
    Alike (serveAll s requests).1 (serveAll s' requests).1 ∧
      (serveAll s' requests).2 = (serveAll s requests).2 := by
  induction requests generalizing s s' with
  | nil => exact h
  | cons request requests ih => exact ih _ _ (serve_alike h request)

/-- **Lines that do not count are ignored.** Whatever is asked of a debugger, on a padded console it
comes to the same debugger but for the console, and to the same machine; and the step that follows
has the same result and writes the same to the log. -/
theorem padding_ignored (d : Debugger) (m : Machine) {padded : List UInt8}
    (h : Padded d.console padded) (requests : List Request) :
    let s := serveAll (d, m) requests
    let s' := serveAll ({ d with console := padded }, m) requests
    s'.1 = { s.1 with console := s'.1.console } ∧ s'.2 = s.2 ∧
      (s'.1.step s'.2).result = (s.1.step s.2).result ∧
      logLines (s'.1.step s'.2).events = logLines (s.1.step s.2).events := by
  intro s s'
  have hstart : Alike d { d with console := padded } := ⟨padded, h, rfl⟩
  obtain ⟨⟨rest, hrest, hsame⟩, hmachine⟩ : Alike s.1 s'.1 ∧ s'.2 = s.2 :=
    serveAll_alike (d, m) ({ d with console := padded }, m) ⟨hstart, rfl⟩ requests
  have hstep := step_alike hrest s.2
  rw [hsame, hmachine]
  exact ⟨rfl, rfl, hstep.result, hstep.log⟩

set_option maxRecDepth 20000 in
/-- One instruction and a breakpoint, and the same with lines put in and the breakpoint broken in
two. -/
theorem padding_ignored_two :
    let m := Machine.loadedWith .modern 0 [0x70, 0x01, 0x12, 0x00]
    let console := line ['n'] ++ (line ['b', ' ', '2', '0', '0'] ++ [])
    let padded := line ['s'] ++ (line ['n'] ++ (line ['?'] ++ (line ['b'] ++ (line ['?'] ++
      (line ['b'] ++ (line ['2', '0', '0'] ++ []))))))
    let d : Debugger := { paused := true, console }
    let s := serveAll (d, m) [.step, .step]
    let s' := serveAll ({ d with console := padded }, m) [.step, .step]
    Padded console padded ∧ s.1.breakpoint = some 0x200 ∧ s.1.paused = true ∧
      s'.1 = { s.1 with console := s'.1.console } ∧ s'.2 = s.2 := by
  intro m console padded d s s'
  have single : ∀ {c : Char}, c ≠ '\n' → IsLine (line [c]) :=
    fun h => Console.isLine_line (by simpa using h.symm)
  have hnext : ¬ AsksAddress (line ['n']) := by
    rintro ⟨text, hread, hparse⟩
    obtain rfl : ['n', '\n'] = text := Option.some.inj ((Console.decode?_line _).symm.trans hread)
    exact absurd hparse (by decide)
  have hpadded : Padded console padded :=
    .idle (single (by decide)) ⟨_, Console.decode?_line _, by decide⟩ <|
      .command (single (by decide)) hnext <|
        .idle (single (by decide)) ⟨_, Console.decode?_line _, by decide⟩ <|
          .refused isLine_b asksAddress_b (single (by decide))
              ⟨_, Console.decode?_line _, by decide⟩ <|
            .apart (by decide) (by decide) (.unchanged [])
  obtain ⟨hsame, hmachine, -⟩ := padding_ignored d m hpadded [.step, .step]
  have hend : s.1.breakpoint = some 0x200 ∧ s.1.paused = true := by decide +kernel
  exact ⟨hpadded, hend.1, hend.2, hsame, hmachine⟩

end Chip8.Debugger
