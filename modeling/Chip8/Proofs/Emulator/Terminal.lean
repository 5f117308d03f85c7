import Chip8.Proofs.Emulator.Calls
import Chip8.Proofs.Terminal

/-!
# The emulator and the terminal

Whatever the host refuses and the console says, an emulator's calls are in order: each stage of a
cycle keeps to what the one who has the terminal may do (`InOrder`), and between the calls the
emulator knows who that is (`Terminal.Fits`).

* `inOrder_cycle`, `inOrder_endFrame`: so it is with each call;
* `inOrder_calls`: and so it is with a run;
* `terminal_owned`: what follows for the order of suspensions, polls, frames and reads.
-/

namespace Chip8

/-! ## Who fits the emulator -/

/-- What an emulator knows about the terminal: whether the console is open, whether there is a
terminal, and whether the input is suspended. -/
def Emulator.tie (e : Emulator) : Bool × Bool × Bool :=
  (e.consoleOpen, e.host.bare, e.host.suspended)

namespace Terminal

variable {t t' : Terminal} {bare : Bool} {e e' : Emulator}

/-- The emulator is as it is between two stages while that one has the terminal. A bare host has no
input to suspend. -/
structure Fits (t : Terminal) (bare : Bool) (e : Emulator) : Prop where
  settled : t ≠ .returning
  console : e.consoleOpen = decide (t ≠ .host)
  suspended : e.host.suspended = (!bare && decide (t = .console))
  bare : e.host.bare = bare

theorem Fits.congr (h : t.Fits bare e) (heq : e'.tie = e.tie) : t.Fits bare e' := by
  simp only [Emulator.tie, Prod.mk.injEq] at heq
  obtain ⟨hconsole, hbare, hsuspended⟩ := heq
  exact ⟨h.settled, hconsole.trans h.console, hsuspended.trans h.suspended, hbare.trans h.bare⟩

theorem Fits.eq_host (h : t.Fits bare e) (hopen : e.consoleOpen = false) : t = .host := by
  simpa [hopen] using h.console

theorem Fits.of_open (h : t.Fits bare e) (hopen : e.consoleOpen = true) :
    t = .console ∨ t = .shared := by
  have hne : t ≠ .host := by simpa [hopen] using h.console
  cases t with
  | console => exact .inl rfl
  | shared => exact .inr rfl
  | host => exact absurd rfl hne
  | returning => exact absurd rfl h.settled

end Terminal

namespace Emulator

open Terminal (Fits)

variable {t : Terminal} {bare : Bool} {e : Emulator} {α β : Type}

theorem tie_called (e : Emulator) (call : HostCall) : (e.called call).tie = e.tie := by
  obtain ⟨calls, h⟩ := e.host.receive_eq call
  rw [called, h]
  rfl

theorem tie_played (e : Emulator) : e.played.tie = e.tie := e.tie_called .poll

theorem tie_drawn (e : Emulator) : e.drawn.tie = e.tie := e.tie_called .draw

theorem tie_beeped (e : Emulator) : e.beeped.tie = e.tie := by
  rw [← e.tie_called e.beepCall, beeped]
  split <;> rfl

/-- The input is suspended or resumed, if there is one to suspend. -/
theorem suspended_setSuspended (h : t.Fits bare e) (suspended : Bool) :
    (e.host.setSuspended suspended).bare = bare ∧
      (e.host.setSuspended suspended).suspended = (!bare && suspended) := by
  have hbare := h.bare
  have hsuspended := h.suspended
  rw [Host.setSuspended]
  cases bare with
  | true =>
    rw [if_pos hbare]
    exact ⟨hbare, hsuspended⟩
  | false =>
    rw [if_neg (by simp [hbare])]
    exact ⟨hbare, rfl⟩

theorem fits_opened (h : t.Fits bare e) : Terminal.console.Fits bare e.opened := by
  have ⟨hbare, hsuspended⟩ := suspended_setSuspended (h.congr (e.tie_called .suspend)) true
  exact ⟨by simp, rfl, hsuspended, hbare⟩

theorem fits_resumed (h : t.Fits bare e) (hopen : e.consoleOpen = true) :
    Terminal.shared.Fits bare e.resumed := by
  have ⟨hbare, hsuspended⟩ := suspended_setSuspended (h.congr (e.tie_called .resume)) false
  exact ⟨by simp, hopen, hsuspended, hbare⟩

theorem fits_closed (h : t.Fits bare e) (hopen : e.consoleOpen = true) :
    Terminal.host.Fits bare e.closed := by
  have hresumed := (fits_resumed h hopen).congr (e.resumed.tie_called .invalidate)
  rw [closed, Host.invalidate]
  split
  · exact ⟨by simp, rfl, hresumed.suspended, hresumed.bare⟩
  · exact ⟨by simp, rfl, hresumed.suspended, hresumed.bare⟩

/-! ## Order -/

/-- What happens is in order for the one who has the terminal before, and another one who fits has
it behind. -/
def InOrder (bare : Bool) (t : Terminal) (o : Outcome Emulator α) : Prop :=
  ∃ t', t.follow o.events = some t' ∧ t'.Fits bare o.state

theorem InOrder.nothing {r : Result α} (h : t.Fits bare e) : InOrder bare t ⟨r, e, []⟩ :=
  ⟨t, rfl, h⟩

theorem InOrder.after {t' : Terminal} {o : Outcome Emulator α} {earlier : List Event}
    (h : InOrder bare t' o) (hearlier : t.follow earlier = some t') :
    InOrder bare t (o.after earlier) := by
  obtain ⟨last, hfollow, hfits⟩ := h
  exact ⟨last, Terminal.follow_append.2 ⟨t', hearlier, hfollow⟩, hfits⟩

/-- Order in a sequence of activities. -/
theorem InOrder.bind {x : Act Emulator α} {f : α → Act Emulator β} (h : InOrder bare t (x e))
    (hf : ∀ a e' events t', x e = ⟨.ok a, e', events⟩ → t'.Fits bare e' →
      InOrder bare t' (f a e')) :
    InOrder bare t ((x >>= f) e) := by
  obtain ⟨t', hfollow, hfits⟩ := h
  rcases hx : x e with ⟨stop | a, e', events⟩
  all_goals rw [hx] at hfollow hfits
  · rw [Act.bind_of_error hx]
    exact ⟨t', hfollow, hfits⟩
  · rw [Act.bind_of_ok hx]
    exact (hf a e' events t' hx hfits).after hfollow

/-! ## The stages -/

theorem inOrder_openConsole (h : t.Fits bare e) : InOrder bare t (openConsole e) := by
  rw [openConsole_eq]
  split
  · rename_i hopens
    have hopen : e.consoleOpen = false := by simpa using (Bool.and_eq_true_iff.1 hopens).2
    obtain rfl := h.eq_host hopen
    split
    · exact ⟨.console, rfl, fits_opened h⟩
    · exact ⟨.host, rfl, h.congr (e.tie_called .suspend)⟩
  · exact .nothing h

theorem inOrder_poll (h : Terminal.host.Fits bare e) : InOrder bare .host (poll e) := by
  rw [poll_eq]
  split
  · have hgranted : Terminal.host.follow [.hostCall .poll true] = some .host := rfl
    refine InOrder.after ⟨.host, ?_, h.congr e.tie_played⟩ hgranted
    cases e.entry <;> rfl
  · exact ⟨.host, rfl, h.congr (e.tie_called .poll)⟩

theorem inOrder_pollInput (h : t.Fits bare e) : InOrder bare t (pollInput e) := by
  rw [pollInput_eq]
  split
  · exact .nothing h
  · rename_i hopen
    obtain rfl := h.eq_host (Bool.eq_false_iff.2 hopen)
    exact inOrder_poll h

/-- A paused debugger needs the console to be open. -/
theorem inOrder_advance (h : t.Fits bare e)
    (hopen : e.debuggerPaused = true → e.consoleOpen = true) :
    InOrder bare t (advance e) := by
  have hnotice := Terminal.next_notice h.settled
  rw [advance]
  split
  · rename_i d hd
    refine ⟨t, Terminal.follow_of_stays ?_, h.congr rfl⟩
    intro event hevent
    obtain ⟨notice, rfl⟩ | ⟨hp, hconsole⟩ := d.seen_step e.machine event hevent
    · exact hnotice notice
    · have hholds := h.of_open (hopen (by rw [debuggerPaused, hd]; exact hp))
      cases event with
      | printed | consoleRead => rcases hholds with rfl | rfl <;> rfl
      | notice | hostCall | shown => exact hconsole.elim
  · refine ⟨t, Terminal.follow_of_stays ?_, h.congr rfl⟩
    intro event hevent
    obtain ⟨notice, rfl⟩ := e.machine.notice_of_step event hevent
    exact hnotice notice

theorem inOrder_closeConsole (h : t.Fits bare e) : InOrder bare t (closeConsole e) := by
  rw [closeConsole_eq]
  split
  · rename_i hcloses
    have hopen : e.consoleOpen = true := (Bool.and_eq_true_iff.1 hcloses).1
    have hholds := h.of_open hopen
    split
    · split
      · refine ⟨.host, ?_, fits_closed h hopen⟩
        rcases hholds with rfl | rfl <;> rfl
      · refine ⟨.shared, ?_, (fits_resumed h hopen).congr (e.resumed.tie_called .invalidate)⟩
        rcases hholds with rfl | rfl <;> rfl
    · refine ⟨t, ?_, h.congr (e.tie_called .resume)⟩
      rcases hholds with rfl | rfl <;> rfl
  · exact .nothing h

theorem inOrder_switchBeeper (h : t.Fits bare e) : InOrder bare t (switchBeeper e) := by
  rw [switchBeeper_eq]
  split
  · refine ⟨t, Terminal.follow_of_stays ?_, h.congr e.tie_beeped⟩
    have hcall : e.beepCall = .beep ∨ e.beepCall = .stop := by
      rw [beepCall]
      split <;> simp
    have hbeeper := Terminal.next_beeper h.settled hcall
    rw [beepEvents]
    split
    · simpa using hbeeper true
    · simpa using ⟨hbeeper false, Terminal.next_notice h.settled _⟩
  · exact .nothing h

theorem inOrder_endFrame (h : t.Fits bare e) : InOrder bare t (endFrame e) := by
  rw [endFrame_eq]
  split
  · exact inOrder_switchBeeper (h.congr rfl)
  rename_i hopen
  obtain rfl := h.eq_host (Bool.eq_false_iff.2 hopen)
  have hticked : Terminal.host.Fits bare e.ticked := h.congr rfl
  split
  · have hdrawn : Terminal.host.Fits bare e.ticked.drawn.forgot :=
      (hticked.congr e.ticked.tie_drawn).congr rfl
    exact (inOrder_switchBeeper hdrawn).after rfl
  · exact ⟨.host, rfl, hticked.congr (e.ticked.tie_called .draw)⟩

theorem inOrder_countInstruction (h : t.Fits bare e) : InOrder bare t (countInstruction e) := by
  rw [countInstruction_eq]
  split
  · exact inOrder_endFrame (h.congr rfl)
  · exact .nothing (h.congr rfl)

/-! ## Calls -/

theorem inOrder_settle (h : t.Fits bare e) : InOrder bare t (settle e) := by
  refine (inOrder_closeConsole h).bind fun _ e' _ t' _ h' => ?_
  exact (inOrder_countInstruction h').bind fun _ _ _ _ _ hlast => .nothing hlast

theorem inOrder_execute (h : t.Fits bare e)
    (hopen : e.debuggerPaused = true → e.consoleOpen = true) :
    InOrder bare t (execute e) := by
  refine (inOrder_advance h hopen).bind fun flow e' _ t' _ h' => ?_
  cases flow with
  | quit => exact .nothing h'
  | proceed => exact inOrder_settle h'

/-- Behind the console's opening a paused debugger has it open. -/
theorem open_of_openConsole {e' : Emulator} {events : List Event}
    (h : openConsole e = ⟨.ok (), e', events⟩) (hp : e'.debuggerPaused = true) :
    e'.consoleOpen = true := by
  obtain ⟨t, _, heq, -⟩ | ⟨t, _, heq, -, hd, hopen, -⟩ := openConsole_cases e
  · cases h.symm.trans heq
  · cases h.symm.trans heq
    rw [debuggerPaused, hd, ← debuggerPaused] at hp
    rw [hopen, consoleHolds, hp, Bool.or_true]

/-- The input is no matter of the debugger. -/
theorem debugger_pollInput (e : Emulator) : (pollInput e).state.debugger = e.debugger ∧
    (pollInput e).state.consoleOpen = e.consoleOpen := by
  rw [pollInput_eq]
  split
  · exact ⟨rfl, rfl⟩
  · rw [poll_eq]
    split
    · exact ⟨rfl, rfl⟩
    · exact ⟨rfl, rfl⟩

theorem inOrder_listen (h : t.Fits bare e)
    (hopen : e.debuggerPaused = true → e.consoleOpen = true) :
    InOrder bare t (listen e) := by
  refine (inOrder_pollInput h).bind fun flow e' _ t' heq h' => ?_
  have ⟨hd, hsame⟩ := e.debugger_pollInput
  rw [heq] at hd hsame
  cases flow with
  | quit => exact .nothing h'
  | proceed =>
    refine inOrder_execute h' fun hp => ?_
    rw [hsame]
    exact hopen (by rw [debuggerPaused, ← hd]; exact hp)

/-- **A cycle is in order**, wherever it ends. -/
theorem inOrder_cycle (h : t.Fits bare e) : InOrder bare t e.cycle :=
  (inOrder_openConsole h).bind fun _ _ _ _ heq h' => inOrder_listen h' (open_of_openConsole heq)

theorem inOrder_call (h : t.Fits bare e) (c : Call) :
    ∃ t', t.follow (e.callEvents c) = some t' ∧ t'.Fits bare (e.call c) := by
  cases c with
  | cycle => exact inOrder_cycle h
  | endFrame => exact inOrder_endFrame h

/-- **A run is in order.** -/
theorem inOrder_calls (h : t.Fits bare e) (run : List Call) :
    ∃ t', t.follow (e.trace run) = some t' ∧ t'.Fits bare (e.calls run) := by
  induction run generalizing t e with
  | nil => exact ⟨t, rfl, h⟩
  | cons c run ih =>
    obtain ⟨between, hcall, hfits⟩ := inOrder_call h c
    obtain ⟨t', hrun, hlast⟩ := ih hfits
    exact ⟨t', Terminal.follow_append.2 ⟨between, hcall, hrun⟩, hlast⟩

/-! ## Behind a cycle that goes through -/

theorem paused_of_settle (h : (settle e).result = .ok .proceed)
    (hopen : (settle e).state.consoleOpen = true) : (settle e).state.debuggerPaused = true := by
  obtain ⟨r, t, events, heq, -, hd, -, hclose, -⟩ := closeConsole_cases e
  rw [settle] at h hopen ⊢
  cases r with
  | error stop =>
    rw [Act.bind_of_error heq] at h
    cases h
  | ok =>
    rw [Act.bind_of_ok heq] at h hopen ⊢
    obtain ⟨r', u, events', machine, beeper, heq', -, -, hd', hsame, -⟩ :=
      countInstruction_cases t
    cases r' with
    | error stop =>
      rw [Act.bind_of_error heq'] at h
      cases h
    | ok =>
      rw [Act.bind_of_ok heq'] at hopen ⊢
      have hboth : (e.consoleOpen && e.debuggerPaused) = true :=
        (hclose rfl).symm.trans (hsame.symm.trans hopen)
      change u.debuggerPaused = true
      rw [debuggerPaused, hd', hd]
      exact (Bool.and_eq_true_iff.1 hboth).2

/-- **Behind a cycle that goes through, only a paused debugger keeps the console open.** -/
theorem paused_of_cycle (h : e.cycle.result = .ok .proceed)
    (hopen : e.cycle.state.consoleOpen = true) : e.cycle.state.debuggerPaused = true := by
  cases e.cycle_course with
  | unplayed _ hne => exact absurd h hne
  | unheard _ hne hr => exact absurd (hr.symm.trans h) hne
  | failed _ _ hr => exact absurd (hr.symm.trans h) (by simp)
  | advanced _ _ _ _ _ _ _ heq =>
    rw [heq] at h hopen ⊢
    exact paused_of_settle h hopen

/-! ## Ownership -/

/-- At first the host has the terminal. -/
theorem fits_loadedWith (rate : UInt32) (dialect : Dialect) (seed : UInt64) (host : Host)
    (debugger : Option Debugger) (program : List UInt8) (h : host.suspended = false) :
    Terminal.host.Fits host.bare (loadedWith rate dialect seed host debugger program) := by
  rw [loadedWith_eq]
  exact ⟨by simp, rfl, by simp [fresh, h], rfl⟩

/-- **Who has the terminal uses it.** Once a suspension is granted, no poll, no frame and no other
suspension is asked for until a resumption and behind it an invalidation are granted. If no
invalidation is refused, the console is read only while the input is suspended. And behind a cycle
that goes through, the console is open only if the debugger is paused. So it is in every run,
whatever the host refuses and the console says. -/
theorem terminal_owned (rate : UInt32) (dialect : Dialect) (seed : UInt64)
    (program : List UInt8) (script : List Scripted) (refuses : HostCall → Nat → Bool)
    (bare : Bool) (debugger : Option Debugger) (run : List Call) :
    let e := loadedWith rate dialect seed { script, refuses, bare } debugger program
    (∀ before between behind call granted,
      e.trace run =
        before ++ .hostCall .suspend true :: between ++ .hostCall call granted :: behind →
      call ∈ [.poll, .draw, .suspend] →
      [.hostCall .resume true, .hostCall .invalidate true] <:+: between) ∧
    (.hostCall .invalidate false ∉ e.trace run → ∀ before behind,
      e.trace run = before ++ .consoleRead :: behind →
      Terminal.inputSuspended before = true) ∧
    (e.calls run).host.suspended = (!bare && Terminal.inputSuspended (e.trace run)) ∧
    ((e.calls run).cycle.result = .ok .proceed →
      (e.calls run).cycle.state.consoleOpen = true →
      (e.calls run).cycle.state.debuggerPaused = true) := by
  intro e
  have hfits : Terminal.host.Fits bare e :=
    fits_loadedWith rate dialect seed { script, refuses, bare } debugger program rfl
  obtain ⟨t, hfollow, hlast⟩ := inOrder_calls hfits run
  refine ⟨?_, ?_, ?_, paused_of_cycle⟩
  · intro before between behind call granted heq hcall
    rw [heq] at hfollow
    exact Terminal.handedBack hfollow hcall
  · intro hnever before behind heq
    rw [heq] at hfollow hnever
    obtain ⟨t', hbefore, hbehind⟩ := Terminal.follow_append.1 hfollow
    obtain ⟨_, hread, -⟩ := Terminal.follow_cons.1 hbehind
    have hunshared : t' ≠ .shared :=
      Terminal.ne_shared hbefore (by simp) fun h => hnever (List.mem_append_left _ h)
    have hconsole : t' = .console := (Terminal.of_next_consoleRead hread).resolve_right hunshared
    rw [Terminal.inputSuspended_eq hbefore, hconsole]
    rfl
  · rw [Terminal.inputSuspended_eq hfollow]
    exact hlast.suspended

set_option maxRecDepth 20000 in
/-- The console's second command lets the machine go, and the first resumption is refused: the third
cycle hands the terminal back, and shows a frame. -/
theorem terminal_owned_refused :
    let program : List UInt8 := [0x60, 0x2A, 0x61, 0x2A, 0x62, 0x2A]
    let e := loadedWith 60 .modern 0 { refuses := fun call n => call = .resume && n = 1 }
      (some { paused := true, console := [110, 10, 99, 10] }) program
    let trace := e.trace [.cycle, .cycle, .cycle]
    .hostCall .resume false ∈ trace ∧
    (∃ between behind,
      trace = [] ++ .hostCall .suspend true :: between ++ .hostCall .draw true :: behind ∧
      [.hostCall .resume true, .hostCall .invalidate true] <:+: between) ∧
    (∃ before behind, trace = before ++ .consoleRead :: behind ∧
      Terminal.inputSuspended before = true) ∧
    e.cycle.state.consoleOpen = true ∧ e.cycle.state.debuggerPaused = true := by
  intro program e trace
  obtain ⟨howned, hread, -, -⟩ := terminal_owned 60 .modern 0 program [] _ false
    (some { paused := true, console := [110, 10, 99, 10] }) [.cycle, .cycle, .cycle]
  obtain ⟨-, -, -, hpaused⟩ := terminal_owned 60 .modern 0 program [] _ false
    (some { paused := true, console := [110, 10, 99, 10] }) []
  have ⟨hfirst, hdraw, hreads, hresumed, hnever⟩ : trace.head? = some (.hostCall .suspend true) ∧
      .hostCall .draw true ∈ trace.tail ∧ .consoleRead ∈ trace ∧
      .hostCall .resume false ∈ trace ∧ .hostCall .invalidate false ∉ trace := by decide +kernel
  have ⟨hresult, hopen⟩ : e.cycle.result = .ok .proceed ∧ e.cycle.state.consoleOpen = true := by
    decide +kernel
  obtain ⟨rest, hrest⟩ := List.head?_eq_some_iff.1 hfirst
  rw [hrest] at hdraw
  obtain ⟨between, behind, hbetween⟩ := List.append_of_mem hdraw
  obtain ⟨before, later, hlines⟩ := List.append_of_mem hreads
  have hdrawn : trace =
      [] ++ .hostCall .suspend true :: between ++ .hostCall .draw true :: behind := by
    rw [hrest]
    exact congrArg (_ :: ·) hbetween
  exact ⟨hresumed, ⟨between, behind, hdrawn, howned _ _ _ _ _ hdrawn (by simp)⟩,
    ⟨before, later, hlines, hread hnever _ _ hlines⟩, hopen, hpaused hresult hopen⟩

end Emulator

end Chip8
