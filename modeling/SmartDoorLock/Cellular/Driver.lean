import SmartDoorLock.Cellular.Dialogue
import SmartDoorLock.Serial.Receive
import SmartDoorLock.Serial.Transmission

/-!
# The dialogue on the driver

The functions of `cellular.c` run on the serial driver: `SerialFlushInputBuff`,
`SerialSend` and `SerialRecv` make their accesses to the rings one by one, and
the handlers of the UART may run between any two of them. The dialogue knows
none of this: there a flush, a command and a reply are one step each, and
`SerialRecv` takes bytes from a line.

The driver refines the dialogue. Each step of the driver gives the step of the
dialogue that it makes: a flush takes effect at its load of `wrI`, a command is
sent when `SerialSend` is called, and a byte is read at its copy from the ring;
every other access is a stutter of the dialogue.
-/

namespace SmartDoorLock

open CText Machine WrapClock

/-! ## The machine -/

/-- One exchange: what was under way at the flush, the number of the command,
the modem's reply to it, and the bytes that `SerialRecv` returned. -/
structure ExchangeLog where
  late : List (ℕ × UInt8)
  command : ℕ
  reply : List UInt8
  text : List UInt8
deriving DecidableEq, Repr

/-- A finished call: its result and its exchanges, the latest first. -/
structure CallLog where
  call : ModemCall
  result : ℤ
  exchanges : List ExchangeLog
deriving DecidableEq, Repr

structure Driver where
  link : Link := {}
  transparentMode : Bool := false
  /-- the call in progress, and what is left of its program -/
  prog : Option (ModemCall × Serial ℤ) := none
  /-- the serial function at which the program stands has been called -/
  entered : Bool := false
  /-- what the modem has sent and has not arrived, by the command it answers -/
  underWay : List (ℕ × UInt8) := []
  /-- all bytes that have arrived -/
  arrived : List (ℕ × UInt8) := []
  /-- the commands sent, the latest last -/
  commands : List (List UInt8) := []
  /-- the modem's replies to them -/
  replies : List (List UInt8) := []
  /-- what was under way when the last flush loaded `wrI` -/
  late : List (ℕ × UInt8) := []
  /-- the exchanges of the call in progress, the latest first -/
  exchanges : List ExchangeLog := []
  /-- the finished calls, the latest first -/
  calls : List CallLog := []

inductive DriverAct where
  /-- `d` ms pass -/
  | elapse (d : ℕ)
  /-- the next byte from the modem arrives, and the receive handler runs -/
  | rxIrq
  | txIrq
  /-- a function is called -/
  | call (c : ModemCall)
  /-- the main line goes on -/
  | next
  /-- `SerialSend` is called for a command, which the modem will answer with `reply` -/
  | send (reply : List UInt8)
deriving DecidableEq, Repr

/-- The program goes on, or calls the serial function at which it stands. -/
def programNext (s : Driver) : Option Driver :=
  match s.prog, s.entered with
  | some (_, .flush _), false =>
      (uartStep s.link.uart .callFlush).map fun uart =>
        { s with link := { s.link with uart := uart }, entered := true }
  | some (c, .flush k), true => some { s with prog := some (c, k), entered := false }
  | some (c, .send buf k), true =>
      some { s with prog := some (c, k buf.length), entered := false }
  | some (_, .recv maxLen timeout _), false =>
      (linkStep { s.link with returned := [] } (.cellularRead maxLen timeout)).map fun link =>
        { s with link := link, entered := true }
  | some (c, .recv _ _ k), true =>
      some { s with
        prog := some (c, k s.link.returned (returnCode s.link.returned.length))
        entered := false
        exchanges := ⟨s.late, s.commands.length - 1, s.replies.getLastD [], s.link.returned⟩ ::
          s.exchanges }
  | some (c, .setTransparentMode b k), _ =>
      some { s with prog := some (c, k), transparentMode := b }
  | some (c, .pure rc), _ =>
      some { s with prog := none, exchanges := [], calls := ⟨c, rc, s.exchanges⟩ :: s.calls }
  | _, _ => none

/-- No serial function is in progress. -/
def Driver.returned (s : Driver) : Prop := s.link.uart.pc = .idle ∧ s.link.pc = .idle

instance (s : Driver) : Decidable s.returned := inferInstanceAs (Decidable (_ ∧ _))

def driverStep (s : Driver) : DriverAct → Option Driver
  | .elapse d => (linkStep s.link (.elapse d)).map fun link => { s with link := link }
  | .rxIrq =>
      match s.underWay with
      | [] => none
      | x :: rest =>
          (linkStep s.link (.rxIrq x.2)).map fun link =>
            { s with link := link, underWay := rest, arrived := s.arrived ++ [x] }
  | .txIrq => (linkStep s.link .txIrq).map fun link => { s with link := link }
  | .call c => if s.prog.isNone then some { s with prog := some (c, c.program) } else none
  | .next =>
      if s.returned then programNext s
      else (linkStep s.link .next).map fun link =>
        { s with
          link := link
          late := if s.link.uart.pc = .flush .wrLoad then s.underWay else s.late }
  | .send reply =>
      match s.prog, s.entered with
      | some (_, .send buf _), false =>
          some { s with
            link := { s.link with pc := .sendLoop buf }
            entered := true
            underWay := s.underWay ++ Line.numbered s.commands.length reply
            commands := s.commands ++ [buf]
            replies := s.replies ++ [reply] }
      | _, _ => none

/-- The step of the dialogue that the main line makes when it goes on after, or
outside of, a serial function. -/
def Driver.programActs (s : Driver) : List DialogueAct :=
  match s.prog, s.entered with
  | some (_, .recv _ _ _), true => [.finish]
  | some (_, .setTransparentMode _ _), _ => [.next]
  | some (_, .pure _), _ => [.next]
  | _, _ => []

/-- The step of the dialogue that the next access of a serial function makes. -/
def UartPc.dialogueActs : UartPc → List DialogueAct
  | .flush .wrLoad => [.next]
  | .get (.dataLoad _ _ _) => [.read]
  | _ => []

/-- The step of the dialogue that a step of the driver makes; empty for a stutter. -/
def Driver.dialogueActs (s : Driver) : DriverAct → List DialogueAct
  | .elapse _ => []
  | .rxIrq => [.arrive]
  | .txIrq => []
  | .call c => [.call c]
  | .next => if s.returned then s.programActs else s.link.uart.pc.dialogueActs
  | .send reply => [.send reply]

/-- A byte that arrives finds room; no handler changes a count that the main line
has loaded and not stored; and the count that limits `data_len` is not more
than that. -/
def RingsKept (s : Driver) (a : DriverAct) : Prop :=
  (a = .rxIrq → s.link.uart.rx.received.length < s.link.uart.rx.taken + 256 ∧
      s.link.uart.pc.rxExposed = false) ∧
    (a = .txIrq → s.link.uart.pc.txExposed = false) ∧
    (a = .next → s.link.uart.pc = .get .clamp →
      s.link.uart.rx.buf.pendingBytes ≤ s.link.pc.asked)

instance (s : Driver) (a : DriverAct) : Decidable (RingsKept s a) := by
  unfold RingsKept
  infer_instance

/-! ## What is related -/

/-- The bytes of all commands, in order. -/
def Driver.text (s : Driver) : List UInt8 := s.commands.flatten

/-- Everything is sent. -/
structure TxDone (text : List UInt8) (tx : TxSide) : Prop where
  ring : TxAt tx 0 0 0
  empty : tx.buf.pendingBytes = 0
  queued : tx.queued = text

/-- A program that receives next has received nothing since its command. -/
def Unread (p : Serial ℤ) (got : List (ℕ × UInt8)) : Prop :=
  ∃ phase, p.Follows phase ∧ (phase = .asked → got = [])

/-- Every `SerialRecv` of the program has a buffer whose size fits an `int`. -/
def Serial.Short : Serial ℤ → Prop
  | .pure _ => True
  | .flush k => k.Short
  | .send _ k => ∀ rc, (k rc).Short
  | .recv maxLen _ k => maxLen < 2 ^ 31 ∧ ∀ buf rc, (k buf rc).Short
  | .setTransparentMode _ k => k.Short

/-- Where the program on the driver and that of the dialogue, which has received
`got`, stand while no serial function is in progress: at the same point, or the
one on the driver still has to note the return. -/
inductive Stands (d : Driver) (prog : Option (ModemCall × Serial ℤ)) (got : List (ℕ × UInt8)) :
    Prop where
  | outside (hentered : d.entered = false) (hprog : prog = d.prog)
      (hunread : ∀ c p, d.prog = some (c, p) → Unread p got ∧ p.Short)
  | flushed (c : ModemCall) (k : Serial ℤ) (hentered : d.entered = true)
      (hprog : d.prog = some (c, .flush k)) (hprog' : prog = some (c, k))
      (hunread : Unread k got ∧ k.Short)
  | sent (c : ModemCall) (buf : List UInt8) (k : ℤ → Serial ℤ) (hentered : d.entered = true)
      (hprog : d.prog = some (c, .send buf k)) (hprog' : prog = some (c, k buf.length))
      (hunread : Unread (k buf.length) got ∧ (k buf.length).Short)
  | received (c : ModemCall) (maxLen : ℕ) (timeout : UInt32) (k : List UInt8 → ℤ → Serial ℤ)
      (hentered : d.entered = true) (hprog : d.prog = some (c, .recv maxLen timeout k))
      (hprog' : prog = d.prog) (hgot : got.map Prod.snd = d.link.returned)
      (hlen : d.link.returned.length ≤ maxLen)
      (hunread : Unread (.recv maxLen timeout k) [] ∧ (Serial.recv maxLen timeout k).Short)

/-- Where they stand, and what the serial function in progress has done so far. -/
inductive At (d : Driver) (prog : Option (ModemCall × Serial ℤ)) (got : List (ℕ × UInt8)) :
    Prop where
  | returned (hreturned : d.returned) (htx : TxDone d.text d.link.uart.tx)
      (hstands : Stands d prog got)
  | flushing (c : ModemCall) (k : Serial ℤ) (p : FlushPc) (hentered : d.entered = true)
      (hprog : d.prog = some (c, .flush k)) (hidle : d.link.pc = .idle)
      (hpc : d.link.uart.pc = .flush p)
      (hprog' : prog = some (c, if p = .wrLoad then .flush k else k))
      (htx : TxDone d.text d.link.uart.tx) (hunread : Unread k got ∧ k.Short)
  | sending (c : ModemCall) (buf : List UInt8) (k : ℤ → Serial ℤ) (hentered : d.entered = true)
      (hprog : d.prog = some (c, .send buf k)) (hbusy : d.link.pc ≠ .idle)
      (hsend : SendInv [] d.text d.link) (hprog' : prog = some (c, k buf.length))
      (hunread : Unread (k buf.length) got ∧ (k buf.length).Short)
  | receiving (c : ModemCall) (maxLen : ℕ) (timeout : UInt32) (k : List UInt8 → ℤ → Serial ℤ)
      (t0 base : ℕ) (hentered : d.entered = true)
      (hprog : d.prog = some (c, .recv maxLen timeout k)) (hbusy : d.link.pc ≠ .idle)
      (hrecv : RecvInv maxLen timeout t0 base d.link) (hpromised : d.link.promised ≤ maxLen)
      (hprog' : prog = d.prog) (hgot : got.map Prod.snd = d.link.delivered)
      (htx : TxDone d.text d.link.uart.tx)
      (hunread : Unread (.recv maxLen timeout k) [] ∧ (Serial.recv maxLen timeout k).Short)

def Exchange.log (e : Exchange) : ExchangeLog :=
  ⟨e.late, e.command, e.reply, e.got.map Prod.snd⟩

def CallRecord.log (r : CallRecord) : CallLog := ⟨r.call, r.result, r.exchanges.map Exchange.log⟩

/-- What can be seen of the driver and of the dialogue is the same. -/
structure Agrees (d : Driver) (s : Dialogue) : Prop where
  mode : s.transparentMode = d.transparentMode
  commands : s.commands = d.commands.length
  underWay : s.line.underWay = d.underWay
  arrived : s.line.arrived = d.arrived.drop d.link.uart.rx.taken
  exchanges : s.exchanges.map Exchange.log = d.exchanges
  calls : s.calls.map CallRecord.log = d.calls

/-- The driver and the dialogue. -/
structure Refines (d : Driver) (s : Dialogue) : Prop extends Agrees d s where
  late : s.late = d.late
  reply : s.reply = d.replies.getLastD []
  bytes : d.arrived.map Prod.snd = d.link.uart.rx.received
  rx : RxInv d.link.uart.rx d.link.uart.pc
  stand : At d s.prog s.got

/-! ## The programs -/

/-- An exchange, and a test of the reply. -/
theorem short_tested {cmd : List UInt8} {maxLen : ℕ} {timeout : UInt32} {c : List UInt8 → Bool}
    {p q : List UInt8 → Serial ℤ} (hlen : maxLen < 2 ^ 31) (hp : ∀ buf, (p buf).Short)
    (hq : ∀ buf, (q buf).Short) :
    (do
      match ← exchange cmd maxLen timeout with
      | none => return -1
      | some buf => if c buf then p buf else q buf : Serial ℤ).Short := by
  show ((exchange cmd maxLen timeout).bind _).Short
  simp only [exchange, Serial.bind, Serial.Short]
  intro sent
  split
  · exact trivial
  · refine ⟨hlen, fun buf rc => ?_⟩
    dsimp only
    split
    · exact trivial
    · simp only [Serial.bind]
      split
      · exact hp buf
      · exact hq buf

theorem short_return (n : ℤ) (_ : List UInt8) : (Pure.pure n : Serial ℤ).Short := trivial

theorem short_program (c : ModemCall) : c.program.Short := by
  have hlen : ∀ {n : ℕ}, n ≤ 18 → n < 2 ^ 31 := fun h => h.trans_lt (by decide)
  cases c with
  | checkModem => exact short_tested (hlen (by decide)) (short_return 0) (short_return (-1))
  | setOperator mode operatorCode =>
      simp only [ModemCall.program, cellularSetOperator]
      split
      · exact short_return _ []
      · exact short_tested (hlen (by decide)) (short_return 0) (short_return (-1))
  | setupInternetConnectionProfile inact =>
      simp only [ModemCall.program, cellularSetupInternetConnectionProfile]
      split
      · exact short_return _ []
      · apply short_tested (hlen (by decide)) (short_return (-1))
        intro _
        apply short_tested (hlen (by decide)) (short_return (-1))
        -- the last exchange is written out in the function
        intro _ sent
        dsimp only
        split
        · exact trivial
        · exact ⟨hlen (by decide), fun _ _ => trivial⟩
  | setupInternetServiceProfile ip port keep =>
      simp only [ModemCall.program, cellularSetupInternetServiceProfile]
      split
      · exact short_return _ []
      · split
        · exact short_return _ []
        · apply short_tested (hlen (by decide)) (short_return (-1))
          intro _
          apply short_tested (hlen (by decide)) (short_return (-1))
          intro _
          exact short_tested (hlen (by decide)) (short_return 0) (short_return (-1))
  | connect =>
      apply short_tested (hlen (by decide)) (short_return (-1))
      intro _
      apply short_tested (hlen (by decide)) (short_return (-1))
      intro _
      exact trivial

/-! ## The handlers -/

/-- What runs beside the main line. -/
def LinkAct.beside : LinkAct → Bool
  | .elapse _ => true
  | .rxIrq _ => true
  | .txIrq => true
  | _ => false

/-- Beside the main line only time, the rings and the logs change. -/
structure Beside (s t : Link) : Prop where
  pc : t.pc = s.pc
  returned : t.returned = s.returned
  uart_pc : t.uart.pc = s.uart.pc
  got : t.uart.got = s.uart.got

theorem TxDone.txIrq {text : List UInt8} {tx : TxSide} (h : TxDone text tx) :
    TxDone text (usart0TxIrqHandler tx) := by
  rw [usart0TxIrqHandler_buf h.empty]
  exact ⟨{ h.ring with }, h.empty, h.queued⟩

theorem TxDone.sent_eq {text : List UInt8} {tx : TxSide} (h : TxDone text tx) :
    tx.sent = text := by
  have hpending := h.ring.pending_eq
  rw [h.empty] at hpending
  exact (h.ring.sent_isPrefix.eq_of_length hpending).trans h.queued

theorem beside_step {s t : Link} {a : LinkAct} (ha : a.beside = true)
    (hstep : linkStep s a = some t) :
    Beside s t ∧ (∀ text, TxDone text s.uart.tx → TxDone text t.uart.tx) := by
  cases a with
  | elapse n =>
      cases hstep
      exact ⟨⟨rfl, rfl, rfl, rfl⟩, fun _ htx => htx⟩
  | rxIrq b =>
      cases hstep
      exact ⟨⟨rfl, rfl, rfl, rfl⟩, fun _ htx => htx⟩
  | txIrq =>
      simp only [linkStep, uartStep] at hstep
      split at hstep <;> cases hstep
      exact ⟨⟨rfl, rfl, rfl, rfl⟩, fun _ htx => htx.txIrq⟩
  | cellularRead maxLen timeout => cases ha
  | cellularWrite payload => cases ha
  | next => cases ha

theorem Beside.delivered {s t : Link} (h : Beside s t) : t.delivered = s.delivered := by
  unfold Link.delivered Link.copied
  rw [h.pc, h.returned, h.uart_pc, h.got]

section

variable {d : Driver} {s : Dialogue} {prog : Option (ModemCall × Serial ℤ)}
  {got : List (ℕ × UInt8)}

/-- The program on the driver stands where it stood. -/
theorem Stands.beside {us as : List (ℕ × UInt8)} {link : Link} (h : Stands d prog got)
    (hlink : link.returned = d.link.returned) :
    Stands { d with link := link, underWay := us, arrived := as } prog got := by
  cases h with
  | outside hentered hprog hunread => exact .outside hentered hprog hunread
  | flushed c k hentered hprog hprog' hunread => exact .flushed c k hentered hprog hprog' hunread
  | sent c buf k hentered hprog hprog' hunread => exact .sent c buf k hentered hprog hprog' hunread
  | received c maxLen timeout k hentered hprog hprog' hgot hlen hunread =>
      rw [← hlink] at hgot hlen
      exact .received c maxLen timeout k hentered hprog hprog' hgot hlen hunread

/-- Time and the handlers leave both programs where they stand. -/
theorem At.beside {a : LinkAct} {link : Link} (us as : List (ℕ × UInt8)) (h : At d prog got)
    (ha : a.beside = true) (hroom : LinkRoom d.link a)
    (hrx : ∀ b, a = .rxIrq b → d.link.uart.pc.rxExposed = false)
    (htx : a = .txIrq → d.link.uart.pc.txExposed = false)
    (hstep : linkStep d.link a = some link) :
    At { d with link := link, underWay := us, arrived := as } prog got := by
  obtain ⟨hbeside, hdone⟩ := beside_step ha hstep
  cases h with
  | returned hreturned htxdone hstands =>
      refine .returned ⟨?_, ?_⟩ (hdone _ htxdone) (hstands.beside hbeside.returned)
      · exact hbeside.uart_pc.trans hreturned.1
      · exact hbeside.pc.trans hreturned.2
  | flushing c k p hentered hprog hidle hpc hprog' htxdone hunread =>
      exact .flushing c k p hentered hprog (hbeside.pc.trans hidle) (hbeside.uart_pc.trans hpc)
        hprog' (hdone _ htxdone) hunread
  | sending c buf k hentered hprog hbusy hsend hprog' hunread =>
      refine .sending c buf k hentered hprog ?_ (sendInv_step [] _ _ a _ hsend ⟨hbusy, htx⟩ hstep)
        hprog' hunread
      show link.pc ≠ .idle
      rw [hbeside.pc]
      exact hbusy
  | receiving c maxLen timeout k t0 base hentered hprog hbusy hrecv hpromised hprog' hgot htxdone
      hunread =>
      have hin : InRecv d.link a := ⟨hbusy, hroom, hrx⟩
      have hnext : a ≠ .next := by
        rintro rfl
        cases ha
      refine .receiving c maxLen timeout k t0 base hentered hprog ?_
        (recvInv_step _ a _ hrecv hin hstep)
        ((promised_step _ a _ hrecv hin hstep).mpr ⟨hpromised, fun h => absurd h hnext⟩) hprog'
        (hgot.trans hbeside.delivered.symm) (hdone _ htxdone) hunread
      show link.pc ≠ .idle
      rw [hbeside.pc]
      exact hbusy

/-! ## The serial functions -/

/-- `SerialSend` leaves the receiving side alone. -/
theorem send_rx {text : List UInt8} {l l' : Link} (h : SendInv [] text l)
    (hstep : linkStep l .next = some l') : l'.uart.rx = l.uart.rx := by
  simp only [linkStep] at hstep
  split at hstep
  · rename_i hidle
    exact (callerNext_untouched hidle hstep).1.rx
  · rename_i hidle
    obtain ⟨uart, huart, rfl⟩ := Option.map_eq_some_iff.mp hstep
    have hnext : uartNext l.uart = some uart := huart
    have hat := h.sendAt
    obtain ⟨p, hp⟩ : ∃ p, l.uart.pc = .put p := by
      unfold SendAt at hat
      split at hat
      · exact hat.resolve_left hidle
      · exact absurd hat hidle
      · exact absurd hat.1 hidle
      · exact hat.elim
    rw [uartNext_put hp, Option.some.injEq] at hnext
    rw [← hnext]

/-- While `SerialSend` is in progress the main line is in `UartPutData`, if anywhere. -/
theorem SendInv.pc {text : List UInt8} {l : Link} (h : SendInv [] text l) :
    l.uart.pc = .idle ∨ ∃ p, l.uart.pc = .put p := by
  have hat := h.sendAt
  unfold SendAt at hat
  split at hat
  · exact hat
  · exact Or.inl hat
  · exact Or.inl hat.1
  · exact hat.elim

/-- While `SerialSend` is in progress the receiving ring has no lag. -/
theorem SendInv.rxInv_iff {text : List UInt8} {l : Link} (h : SendInv [] text l) (rx : RxSide) :
    RxInv rx l.uart.pc ↔ RxAt rx 0 0 := by
  rcases h.pc with hpc | ⟨p, hpc⟩ <;> rw [hpc] <;> exact Iff.rfl

/-- While `SerialSend` is in progress nothing is flushed or read. -/
theorem SendInv.dialogueActs {text : List UInt8} {l : Link} (h : SendInv [] text l) :
    l.uart.pc.dialogueActs = [] ∧ l.uart.pc ≠ .flush .wrLoad := by
  rcases h.pc with hpc | ⟨p, hpc⟩ <;> rw [hpc] <;> exact ⟨rfl, by simp⟩

theorem SendInv.done {text : List UInt8} {l : Link} (h : SendInv [] text l) (hidle : l.pc = .idle) :
    l.uart.pc = .idle ∧ TxDone text l.uart.tx := by
  obtain ⟨hring, -, -, hstored, hat⟩ := h
  unfold SendAt at hat
  rw [hidle] at hat hstored
  rw [hat.1] at hring hstored
  refine ⟨hat.1, hring, hat.2, ?_⟩
  simpa [UartPc.rest, LinkPc.rest] using hstored

/-- `UartGetData` takes a byte where it copies one. -/
theorem getNext_takes (curTime : UInt32) (rx : RxSide) (p : GetPc) :
    ((UartPc.get p).dialogueActs = [] ∧ (getNext curTime rx p).1.taken = rx.taken) ∨
      ((UartPc.get p).dialogueActs = [.read] ∧
        (getNext curTime rx p).1.taken = rx.taken + 1) := by
  cases p with
  | dataLoad n out r => exact Or.inr ⟨rfl, rfl⟩
  | head n out => cases n <;> exact Or.inl ⟨rfl, rfl⟩
  | _ => exact Or.inl ⟨rfl, rfl⟩

/-- A step of `SerialRecv` takes the oldest byte, or none. -/
theorem recv_taken {maxLen : ℕ} {timeout : UInt32} {t0 base : ℕ} {l l' : Link}
    (h : RecvInv maxLen timeout t0 base l) (hbusy : l.pc ≠ .idle)
    (hstep : linkStep l .next = some l') :
    l'.uart.tx = l.uart.tx ∧ l'.uart.rx.received = l.uart.rx.received ∧
      ((l.uart.pc.dialogueActs = [] ∧ l'.uart.rx.taken = l.uart.rx.taken) ∨
        (l.uart.pc.dialogueActs = [.read] ∧ l.uart.rx.taken < l.uart.rx.received.length ∧
          l'.uart.rx.taken = l.uart.rx.taken + 1)) := by
  have hidle : l.uart.pc = .idle → l.uart.pc.dialogueActs = [] := by
    intro huart
    rw [huart]
    rfl
  cases recvStep_cases h.recv hbusy hstep with
  | get buf p p' hpc huart hret =>
      refine ⟨rfl, getNext_received _ _ p, ?_⟩
      rw [huart]
      rcases getNext_takes (stamp l.uart.now) l.uart.rx p with hnone | ⟨hread, htakes⟩
      · exact Or.inl hnone
      · rcases getNext_copied (getInv_of_pc h.stream.rx huart) hret with
          ⟨-, htaken⟩ | ⟨hlt, -, -⟩
        · rw [htakes] at htaken
          exact absurd htaken (Nat.succ_ne_self _)
        · exact Or.inr ⟨hread, hlt, htakes⟩
  | ret buf p out hpc huart hret =>
      refine ⟨rfl, getNext_received _ _ p, Or.inl ?_⟩
      rw [huart]
      rcases getNext_takes (stamp l.uart.now) l.uart.rx p with hnone | ⟨-, htakes⟩
      · exact hnone
      · rw [(getNext_return hret).1] at htakes
        exact absurd htakes.symm (Nat.succ_ne_self _)
  | expired buf hpc huart hexpired => exact ⟨rfl, rfl, Or.inl ⟨hidle huart, rfl⟩⟩
  | full buf hpc huart hfull => exact ⟨rfl, rfl, Or.inl ⟨hidle huart, rfl⟩⟩
  | ask buf hpc huart hlt hleft => exact ⟨rfl, rfl, Or.inl ⟨hidle huart, rfl⟩⟩
  | gotNone buf hpc huart hgot => exact ⟨rfl, rfl, Or.inl ⟨hidle huart, rfl⟩⟩
  | gotSome buf out hpc huart hgot hout => exact ⟨rfl, rfl, Or.inl ⟨hidle huart, rfl⟩⟩

/-! ## Step by step -/

/-- The dialogue can make the steps `bs`, and then the driver refines it. -/
def Matched (bs : List DialogueAct) (t : Driver) (s : Dialogue) : Prop :=
  ∃ s', run dialogueStep s bs = some s' ∧ Refines t s'

theorem Refines.matched {t : Driver} (h : Refines t s) : Matched [] t s := ⟨s, rfl, h⟩

theorem Refines.matched_one {t : Driver} (s' : Dialogue) {b : DialogueAct} (h : Refines t s')
    (hstep : dialogueStep s b = some s') : Matched [b] t s :=
  ⟨s', by rw [run_cons, hstep, Option.bind_some, run_nil], h⟩

theorem Refines.taken_le (h : Refines d s) : d.link.uart.rx.taken ≤ d.arrived.length := by
  have hlen := congrArg List.length h.bytes
  rw [List.length_map] at hlen
  rw [hlen]
  exact h.rx.holds.taken_le

/-- A step that takes no byte is not seen. -/
theorem Refines.stutter {link : Link} (h : Refines d s)
    (htaken : link.uart.rx.taken = d.link.uart.rx.taken)
    (hreceived : link.uart.rx.received = d.link.uart.rx.received)
    (hrx : RxInv link.uart.rx link.uart.pc) (hstand : At { d with link := link } s.prog s.got) :
    Matched [] { d with link := link } s := by
  refine Refines.matched ⟨{ h.toAgrees with arrived := ?_ }, h.late, h.reply, ?_, hrx, hstand⟩
  · rw [h.arrived]
    exact congrArg (d.arrived.drop ·) htaken.symm
  · exact h.bytes.trans hreceived.symm

/-- Time and the transmit handler are not seen. -/
theorem matched_beside {a : LinkAct} {link : Link} (h : Refines d s) (ha : a.beside = true)
    (hrx : ∀ b, a ≠ .rxIrq b) (htx : a = .txIrq → d.link.uart.pc.txExposed = false)
    (hstep : linkStep d.link a = some link) : Matched [] { d with link := link } s := by
  have hsame : link.uart.rx = d.link.uart.rx ∧ link.uart.pc = d.link.uart.pc := by
    cases a with
    | elapse n =>
        cases hstep
        exact ⟨rfl, rfl⟩
    | txIrq =>
        simp only [linkStep, uartStep] at hstep
        split at hstep <;> cases hstep
        exact ⟨rfl, rfl⟩
    | rxIrq b => exact absurd rfl (hrx b)
    | _ => cases ha
  refine h.stutter (by rw [hsame.1]) (by rw [hsame.1]) ?_ ?_
  · rw [hsame.1, hsame.2]
    exact h.rx
  · exact h.stand.beside d.underWay d.arrived ha (fun b hb => absurd hb (hrx b))
      (fun b hb => absurd hb (hrx b)) htx hstep

/-- A byte arrives on both sides. -/
theorem matched_rxIrq {x : ℕ × UInt8} {rest : List (ℕ × UInt8)} {link : Link} (h : Refines d s)
    (hway : d.underWay = x :: rest)
    (hroom : d.link.uart.rx.received.length < d.link.uart.rx.taken + 256)
    (hexposed : d.link.uart.pc.rxExposed = false)
    (hstep : linkStep d.link (.rxIrq x.2) = some link) :
    Matched [.arrive] { d with link := link, underWay := rest, arrived := d.arrived ++ [x] } s := by
  have hline : s.line.arrive = some { arrived := s.line.arrived ++ [x], underWay := rest } := by
    unfold Line.arrive
    rw [h.underWay, hway]
  have hstand := h.stand.beside rest (d.arrived ++ [x]) rfl (fun b hb => hroom)
    (fun b hb => hexposed) (fun hb => by cases hb) hstep
  obtain rfl : link = { d.link with
      uart := { d.link.uart with rx := usart0RxIrqHandler d.link.uart.rx x.2 } } := by
    cases hstep
    rfl
  refine Refines.matched_one { s with line := _ } ?_
    (by rw [dialogueStep, hline, Option.map_some])
  refine ⟨{ h.toAgrees with underWay := rfl, arrived := ?_ }, h.late, h.reply, ?_, ?_, ?_⟩
  · show s.line.arrived ++ [x] = (d.arrived ++ [x]).drop d.link.uart.rx.taken
    rw [List.drop_append_of_le_length h.taken_le, h.arrived]
  · show (d.arrived ++ [x]).map Prod.snd = d.link.uart.rx.received ++ [x.2]
    rw [List.map_append, h.bytes]
    rfl
  · exact rxInv_rxIrq h.rx hroom hexposed x.2
  · exact hstand

/-- A flush is seen at its load of `wrI`. -/
theorem matched_flush {c : ModemCall} {k : Serial ℤ} {p : FlushPc} {link : Link}
    (h : Refines d s) (hentered : d.entered = true) (hprog : d.prog = some (c, .flush k))
    (hidle : d.link.pc = .idle) (hpc : d.link.uart.pc = .flush p)
    (hprog' : s.prog = some (c, if p = .wrLoad then .flush k else k))
    (htx : TxDone d.text d.link.uart.tx) (hunread : Unread k s.got ∧ k.Short)
    (hstep : linkStep d.link .next = some link) :
    Matched d.link.uart.pc.dialogueActs { d with
      link := link
      late := if d.link.uart.pc = .flush .wrLoad then d.underWay else d.late } s := by
  have hnext : uartNext d.link.uart = some link.uart ∧
      link = { d.link with uart := link.uart } := by
    simp only [linkStep, hpc, reduceCtorEq, if_false] at hstep
    obtain ⟨uart, huart, rfl⟩ := Option.map_eq_some_iff.mp hstep
    exact ⟨huart, rfl⟩
  obtain ⟨huart, hlink⟩ := hnext
  have hrx := rxInv_next h.rx huart
  rw [hlink]
  generalize link.uart = uart at huart hrx
  unfold uartNext at huart
  rw [hpc] at huart ⊢
  cases p with
  | wrLoad =>
      cases huart
      rw [if_pos rfl] at hprog' ⊢
      refine Refines.matched_one { s with
        prog := some (c, k), line := s.line.drop, late := s.line.underWay } ?_
        (by rw [dialogueStep, hprog'])
      refine ⟨{ h.toAgrees with arrived := ?_ }, h.underWay, h.reply, h.bytes, hrx, ?_⟩
      · show [] = d.arrived.drop d.link.uart.rx.received.length
        rw [← h.bytes, List.length_map, List.drop_length]
      · exact .flushing c k _ hentered hprog hidle rfl rfl htx hunread
  | rdStore w =>
      cases huart
      rw [if_neg (by simp)]
      exact h.stutter rfl rfl hrx (.flushing c k _ hentered hprog hidle rfl hprog' htx hunread)
  | pendStore =>
      cases huart
      rw [if_neg (by simp)]
      exact h.stutter rfl rfl hrx (.flushing c k _ hentered hprog hidle rfl hprog' htx hunread)
  | overflowStore =>
      cases huart
      rw [if_neg (by simp)]
      exact h.stutter rfl rfl hrx
        (.returned ⟨rfl, hidle⟩ htx (.flushed c k hentered hprog hprog' hunread))

/-- `SerialSend` is not seen any more. -/
theorem matched_sending {c : ModemCall} {buf : List UInt8} {k : ℤ → Serial ℤ} {link : Link}
    (h : Refines d s) (hentered : d.entered = true) (hprog : d.prog = some (c, .send buf k))
    (hbusy : d.link.pc ≠ .idle) (hsend : SendInv [] d.text d.link)
    (hprog' : s.prog = some (c, k buf.length))
    (hunread : Unread (k buf.length) s.got ∧ (k buf.length).Short)
    (hstep : linkStep d.link .next = some link) : Matched [] { d with link := link } s := by
  have hrx := send_rx hsend hstep
  have hsend' := sendInv_step [] _ _ _ _ hsend ⟨hbusy, fun hb => by cases hb⟩ hstep
  refine h.stutter (by rw [hrx]) (by rw [hrx]) ?_ ?_
  · rw [hsend'.rxInv_iff, hrx]
    exact (hsend.rxInv_iff _).mp h.rx
  · by_cases hidle : link.pc = .idle
    · obtain ⟨huart, hdone⟩ := hsend'.done hidle
      exact .returned ⟨huart, hidle⟩ hdone (.sent c buf k hentered hprog hprog' hunread)
    · exact .sending c buf k hentered hprog hidle hsend' hprog' hunread

/-- The byte that a step of `SerialRecv` takes is delivered. -/
theorem delivered_taken {maxLen : ℕ} {timeout : UInt32} {t0 base : ℕ} {l l' : Link}
    (h : RecvInv maxLen timeout t0 base l) (h' : RecvInv maxLen timeout t0 base l')
    (hreceived : l'.uart.rx.received = l.uart.rx.received)
    (hlt : l.uart.rx.taken < l.uart.rx.received.length)
    (htaken : l'.uart.rx.taken = l.uart.rx.taken + 1) :
    l'.delivered = l.delivered ++ [l.uart.rx.received[l.uart.rx.taken]] := by
  have hbase : base ≤ (l.uart.rx.received.take l.uart.rx.taken).length := by
    have hle := h.stream.base_le
    rw [List.length_take]
    omega
  rw [h'.stream.delivered, h.stream.delivered, hreceived, htaken,
    List.take_succ_eq_append_getElem hlt, List.drop_append_of_le_length hbase]

/-- The oldest byte in the ring is the oldest on the line. -/
theorem Refines.take (h : Refines d s)
    (hlt : d.link.uart.rx.taken < d.link.uart.rx.received.length) :
    ∃ x, s.line.take =
        some (x, { s.line with arrived := d.arrived.drop (d.link.uart.rx.taken + 1) }) ∧
      x.2 = d.link.uart.rx.received[d.link.uart.rx.taken] := by
  have hlt' : d.link.uart.rx.taken < d.arrived.length := by
    rw [← h.bytes, List.length_map] at hlt
    exact hlt
  refine ⟨d.arrived[d.link.uart.rx.taken], ?_, ?_⟩
  · unfold Line.take
    rw [h.arrived, List.drop_eq_getElem_cons hlt']
  · simp only [← h.bytes, List.getElem_map]

/-- A byte is seen at its copy from the ring. -/
theorem matched_receiving {c : ModemCall} {maxLen : ℕ} {timeout : UInt32}
    {k : List UInt8 → ℤ → Serial ℤ} {t0 base : ℕ} {link : Link} (h : Refines d s)
    (hentered : d.entered = true) (hprog : d.prog = some (c, .recv maxLen timeout k))
    (hbusy : d.link.pc ≠ .idle) (hrecv : RecvInv maxLen timeout t0 base d.link)
    (hpromised : d.link.promised ≤ maxLen) (hprog' : s.prog = d.prog)
    (hgot : s.got.map Prod.snd = d.link.delivered) (htx : TxDone d.text d.link.uart.tx)
    (hunread : Unread (.recv maxLen timeout k) [] ∧ (Serial.recv maxLen timeout k).Short)
    (hfits : ClampFits d.link .next) (hstep : linkStep d.link .next = some link) :
    Matched d.link.uart.pc.dialogueActs { d with link := link } s := by
  have hin : InRecv d.link .next :=
    ⟨hbusy, fun b hb => LinkAct.noConfusion hb, fun b hb => LinkAct.noConfusion hb⟩
  have hrecv' := recvInv_step _ _ _ hrecv hin hstep
  have hpromised' := (promised_step _ _ _ hrecv hin hstep).mpr ⟨hpromised, hfits⟩
  have hlen := (delivered_le_promised link).trans hpromised'
  obtain ⟨htx', hreceived, htaken⟩ := recv_taken hrecv hbusy hstep
  -- where the call stands after the step
  have hat : ∀ got : List (ℕ × UInt8), got.map Prod.snd = link.delivered →
      At { d with link := link } s.prog got := by
    intro got hgot
    have hdone : TxDone d.text link.uart.tx := by
      rw [htx']
      exact htx
    by_cases hidle : link.pc = .idle
    · refine .returned ⟨(hrecv'.recv.idle hidle).1, hidle⟩ hdone ?_
      rw [delivered_idle hidle] at hgot hlen
      exact .received c maxLen timeout k hentered hprog hprog' hgot hlen hunread
    · exact .receiving c maxLen timeout k t0 base hentered hprog hidle hrecv' hpromised' hprog' hgot
        hdone hunread
  rcases htaken with ⟨hacts, htaken⟩ | ⟨hacts, hlt, htaken⟩
  · have hdelivered : link.delivered = d.link.delivered := by
      rw [hrecv'.stream.delivered, hrecv.stream.delivered, hreceived, htaken]
    rw [hacts]
    exact h.stutter htaken hreceived hrecv'.stream.rx (hat s.got (hgot.trans hdelivered.symm))
  · obtain ⟨x, htake, hbyte⟩ := h.take hlt
    have hdelivered := delivered_taken hrecv hrecv' hreceived hlt htaken
    have hroom : s.got.length < maxLen := by
      have hone := congrArg List.length hdelivered
      rw [List.length_append, List.length_singleton, ← hgot, List.length_map] at hone
      omega
    rw [hacts]
    refine Refines.matched_one { s with
      line := { s.line with arrived := d.arrived.drop (d.link.uart.rx.taken + 1) }
      got := s.got ++ [x] } ?_ ?_
    · refine ⟨{ h.toAgrees with arrived := ?_ }, h.late, h.reply, h.bytes.trans hreceived.symm,
        hrecv'.stream.rx, hat _ ?_⟩
      · exact congrArg (d.arrived.drop ·) htaken.symm
      · rw [List.map_append, hgot, hdelivered, List.map_singleton, hbyte]
    · rw [dialogueStep, hprog', hprog]
      simp only [hroom, if_true, htake, Option.map_some]

theorem fresh_call (c : ModemCall) (got : List (ℕ × UInt8)) :
    Unread c.program got ∧ c.program.Short :=
  ⟨⟨.free, follows_program c, fun hphase => by cases hphase⟩, short_program c⟩

theorem Unread.flush {k : Serial ℤ} {got : List (ℕ × UInt8)} (h : Unread (.flush k) got) :
    Unread k got := by
  obtain ⟨phase, hfollows, -⟩ := h
  refine ⟨.flushed, ?_, fun hphase => by cases hphase⟩
  cases phase <;> exact hfollows

theorem Unread.send {buf : List UInt8} {k : ℤ → Serial ℤ} {got : List (ℕ × UInt8)}
    (h : Unread (.send buf k) got) (rc : ℤ) : Unread (k rc) [] := by
  obtain ⟨phase, hfollows, -⟩ := h
  cases phase with
  | flushed => exact ⟨.asked, hfollows rc, fun _ => rfl⟩
  | free => exact hfollows.elim
  | asked => exact hfollows.elim

theorem Unread.recv {maxLen : ℕ} {timeout : UInt32} {k : List UInt8 → ℤ → Serial ℤ}
    {got : List (ℕ × UInt8)} (h : Unread (.recv maxLen timeout k) got) :
    got = [] ∧ ∀ buf rc got', Unread (k buf rc) got' := by
  obtain ⟨phase, hfollows, hgot⟩ := h
  cases phase with
  | asked =>
      exact ⟨hgot rfl, fun buf rc _ => ⟨.free, hfollows buf rc, fun hphase => by cases hphase⟩⟩
  | free => exact hfollows.elim
  | flushed => exact hfollows.elim

theorem Unread.setTransparentMode {b : Bool} {k : Serial ℤ} {got : List (ℕ × UInt8)}
    (h : Unread (.setTransparentMode b k) got) : Unread k got := by
  obtain ⟨phase, hfollows, hgot⟩ := h
  refine ⟨phase, ?_, hgot⟩
  cases phase <;> exact hfollows

/-- The program calls a serial function, stores or returns. -/
theorem matched_outside {t : Driver} (h : Refines d s) (hreturned : d.returned)
    (htx : TxDone d.text d.link.uart.tx) (hentered : d.entered = false) (hprog' : s.prog = d.prog)
    (hunread : ∀ c p, d.prog = some (c, p) → Unread p s.got ∧ p.Short)
    (hstep : programNext d = some t) : Matched d.programActs t s := by
  cases hprog : d.prog with
  | none => simp [programNext, hprog] at hstep
  | some cp =>
      obtain ⟨c, p⟩ := cp
      obtain ⟨hunread, hshort⟩ := hunread c p hprog
      have hring : RxAt d.link.uart.rx 0 0 := by
        have hrx := h.rx
        rw [hreturned.1] at hrx
        exact hrx
      rw [hprog] at hprog'
      unfold Driver.programActs
      rw [hprog, hentered]
      cases p with
      | pure rc =>
          simp only [programNext, hprog, Option.some.injEq] at hstep
          subst hstep
          refine Refines.matched_one { s with
            prog := none, exchanges := [], calls := ⟨c, rc, s.exchanges⟩ :: s.calls } ?_
            (by rw [dialogueStep, hprog'])
          refine ⟨{ h.toAgrees with exchanges := rfl, calls := ?_ }, h.late, h.reply, h.bytes,
            h.rx, ?_⟩
          · show CallRecord.log _ :: s.calls.map CallRecord.log = _
            rw [h.calls, CallRecord.log, h.exchanges]
          · exact .returned hreturned htx (.outside hentered rfl fun c p hp => by cases hp)
      | flush k =>
          simp only [programNext, hprog, hentered, uartStep, hreturned.1, if_true,
            Option.map_some, Option.some.injEq] at hstep
          subst hstep
          refine Refines.matched ⟨{ h.toAgrees with }, h.late, h.reply, h.bytes, hring, ?_⟩
          exact .flushing c k .wrLoad rfl rfl hreturned.2 rfl hprog' htx
            ⟨hunread.flush, hshort⟩
      | send buf k => simp [programNext, hprog, hentered] at hstep
      | recv maxLen timeout k =>
          simp only [programNext, hprog, hentered, linkStep, hreturned.2, if_true,
            Option.map_some, Option.some.injEq] at hstep
          subst hstep
          have hcalled : RecvCalled maxLen timeout { d.link with
              returned := [], pc := .recvLoop ⟨maxLen, timeout, stamp d.link.uart.now⟩ [] } :=
            ⟨rfl, hreturned.1, hring, rfl⟩
          refine Refines.matched ⟨{ h.toAgrees with }, h.late, h.reply, h.bytes, h.rx, ?_⟩
          obtain ⟨hnone, -⟩ := hunread.recv
          refine .receiving c maxLen timeout k _ _ rfl rfl (by simp) (recvInv_called hcalled)
            (Nat.zero_le _) hprog' ?_ htx ⟨hnone ▸ hunread, hshort⟩
          rw [hnone]
          rfl
      | setTransparentMode b k =>
          simp only [programNext, hprog, Option.some.injEq] at hstep
          subst hstep
          refine Refines.matched_one { s with
            prog := some (c, k), transparentMode := b } ?_ (by rw [dialogueStep, hprog'])
          refine ⟨{ h.toAgrees with mode := rfl }, h.late, h.reply, h.bytes, h.rx, ?_⟩
          refine .returned hreturned htx (.outside hentered rfl fun c p hp => ?_)
          cases hp
          exact ⟨hunread.setTransparentMode, hshort⟩

/-- The program makes a call, or goes on after one. -/
theorem matched_program {t : Driver} (h : Refines d s) (hreturned : d.returned)
    (htx : TxDone d.text d.link.uart.tx) (hstands : Stands d s.prog s.got)
    (hstep : programNext d = some t) : Matched d.programActs t s := by
  cases hstands with
  | outside hentered hprog' hunread =>
      exact matched_outside h hreturned htx hentered hprog' hunread hstep
  | flushed c k hentered hprog hprog' hunread =>
      simp only [programNext, hprog, hentered, Option.some.injEq] at hstep
      subst hstep
      unfold Driver.programActs
      rw [hprog]
      refine Refines.matched ⟨{ h.toAgrees with }, h.late, h.reply, h.bytes, h.rx, ?_⟩
      refine .returned hreturned htx (.outside rfl hprog' fun c p hp => ?_)
      cases hp
      exact hunread
  | sent c buf k hentered hprog hprog' hunread =>
      simp only [programNext, hprog, hentered, Option.some.injEq] at hstep
      subst hstep
      unfold Driver.programActs
      rw [hprog]
      refine Refines.matched ⟨{ h.toAgrees with }, h.late, h.reply, h.bytes, h.rx, ?_⟩
      refine .returned hreturned htx (.outside rfl hprog' fun c p hp => ?_)
      cases hp
      exact hunread
  | received c maxLen timeout k hentered hprog hprog' hgot hlen hunread =>
      simp only [programNext, hprog, hentered, Option.some.injEq] at hstep
      subst hstep
      obtain ⟨hmax, hshort⟩ := hunread.2
      have hcode : returnCode d.link.returned.length = s.got.length := by
        rw [returnCode_eq (hlen.trans_lt hmax), ← hgot, List.length_map]
      rw [hcode, ← hgot]
      rw [hprog] at hprog'
      unfold Driver.programActs
      rw [hprog, hentered]
      refine Refines.matched_one { s with
        prog := some (c, k (s.got.map Prod.snd) s.got.length)
        exchanges := ⟨s.late, s.commands - 1, s.reply, s.got⟩ :: s.exchanges } ?_
        (by rw [dialogueStep, hprog'])
      refine ⟨{ h.toAgrees with exchanges := ?_ }, h.late, h.reply, h.bytes, h.rx, ?_⟩
      · show Exchange.log _ :: s.exchanges.map Exchange.log = _
        rw [h.exchanges, Exchange.log, h.late, h.commands, h.reply]
      · refine .returned hreturned htx (.outside rfl rfl fun c p hp => ?_)
        cases hp
        exact ⟨hunread.1.recv.2 _ _ _, hshort _ _⟩

/-- Inside a serial function the program waits for it. -/
theorem At.outside (h : At d prog got) (hentered : d.entered = false) :
    d.returned ∧ TxDone d.text d.link.uart.tx ∧ prog = d.prog ∧
      ∀ c p, d.prog = some (c, p) → Unread p got ∧ p.Short := by
  have hnot : d.entered ≠ true := by
    rw [hentered]
    exact Bool.false_ne_true
  cases h with
  | returned hreturned htx hstands =>
      cases hstands with
      | outside _ hprog hunread => exact ⟨hreturned, htx, hprog, hunread⟩
      | flushed c k hent => exact absurd hent hnot
      | sent c buf k hent => exact absurd hent hnot
      | received c maxLen timeout k hent => exact absurd hent hnot
  | flushing c k p hent => exact absurd hent hnot
  | sending c buf k hent => exact absurd hent hnot
  | receiving c maxLen timeout k t0 base hent => exact absurd hent hnot

theorem matched_call (h : Refines d s) (c : ModemCall) (hnone : d.prog = none) :
    Matched [.call c] { d with prog := some (c, c.program) } s := by
  have hentered : d.entered = false := by
    cases h.stand with
    | returned _ _ hstands =>
        cases hstands with
        | outside hent => exact hent
        | _ => simp_all
    | _ => simp_all
  obtain ⟨hreturned, htx, hprog, -⟩ := h.stand.outside hentered
  refine Refines.matched_one { s with prog := some (c, c.program) } ?_ ?_
  · refine ⟨{ h.toAgrees with }, h.late, h.reply, h.bytes, h.rx, ?_⟩
    refine .returned hreturned htx (.outside hentered rfl fun c' p hp => ?_)
    cases hp
    exact fresh_call c s.got
  · rw [dialogueStep, hprog, hnone]
    rfl

/-- A command is sent on both sides, and its reply is under way. -/
theorem matched_send {c : ModemCall} {buf : List UInt8} {k : ℤ → Serial ℤ} (h : Refines d s)
    (reply : List UInt8) (hprog : d.prog = some (c, .send buf k)) (hentered : d.entered = false) :
    Matched [.send reply] { d with
      link := { d.link with pc := .sendLoop buf }
      entered := true
      underWay := d.underWay ++ Line.numbered d.commands.length reply
      commands := d.commands ++ [buf]
      replies := d.replies ++ [reply] } s := by
  obtain ⟨hreturned, htx, hprog', hunread⟩ := h.stand.outside hentered
  obtain ⟨hunread, hshort⟩ := hunread c _ hprog
  rw [hprog] at hprog'
  refine Refines.matched_one { s with
    prog := some (c, k buf.length)
    line := s.line.put s.commands reply
    commands := s.commands + 1
    reply := reply
    got := [] } ?_ (by rw [dialogueStep, hprog'])
  refine ⟨{ h.toAgrees with commands := ?_, underWay := ?_ }, h.late, ?_, h.bytes, h.rx, ?_⟩
  · show s.commands + 1 = (d.commands ++ [buf]).length
    rw [h.commands, List.length_append, List.length_singleton]
  · show s.line.underWay ++ Line.numbered s.commands reply = _
    rw [h.underWay, h.commands]
  · exact List.getLastD_concat.symm
  · refine .sending c buf k rfl hprog (by simp) ?_ rfl ⟨hunread.send _, hshort _⟩
    have hpc := hreturned.1
    refine ⟨?_, ?_, ?_, ?_, Or.inl hpc⟩
    · show TxInv (d.link.uart.tx.after []) d.link.uart.pc
      rw [hpc]
      exact htx.ring
    · intro _ hpos
      exact absurd hpos (by rw [htx.empty]; exact Nat.lt_irrefl 0)
    · show d.link.uart.pc.rest.length ≤ _
      rw [hpc]
      exact Nat.zero_le _
    · show d.link.uart.tx.queued ++ d.link.uart.pc.rest ++ buf = (d.commands ++ [buf]).flatten
      rw [hpc, htx.queued, List.flatten_append]
      simp [UartPc.rest, Driver.text]

end

theorem matched_step {d t : Driver} {s : Dialogue} {a : DriverAct} (h : Refines d s)
    (hcond : RingsKept d a) (hstep : driverStep d a = some t) :
    Matched (d.dialogueActs a) t s := by
  obtain ⟨hrx, htx, hclamp⟩ := hcond
  cases a with
  | elapse n =>
      simp only [driverStep] at hstep
      obtain ⟨link, hlink, rfl⟩ := Option.map_eq_some_iff.mp hstep
      exact matched_beside h rfl (fun b hb => by cases hb) (fun hb => by cases hb) hlink
  | rxIrq =>
      obtain ⟨hroom, hexposed⟩ := hrx rfl
      simp only [driverStep] at hstep
      split at hstep
      · cases hstep
      · rename_i x rest hway
        obtain ⟨link, hlink, rfl⟩ := Option.map_eq_some_iff.mp hstep
        exact matched_rxIrq h hway hroom hexposed hlink
  | txIrq =>
      simp only [driverStep] at hstep
      obtain ⟨link, hlink, rfl⟩ := Option.map_eq_some_iff.mp hstep
      exact matched_beside h rfl (fun b hb => by cases hb) (fun _ => htx rfl) hlink
  | call c =>
      simp only [driverStep] at hstep
      split at hstep <;> cases hstep
      rename_i hnone
      exact matched_call h c (Option.isNone_iff_eq_none.mp hnone)
  | send reply =>
      simp only [driverStep] at hstep
      split at hstep <;> cases hstep
      rename_i c buf k hprog hentered
      exact matched_send h reply hprog hentered
  | next =>
      simp only [driverStep] at hstep
      simp only [Driver.dialogueActs]
      split at hstep
      · rename_i hreturned
        rw [if_pos hreturned]
        have hstands : TxDone d.text d.link.uart.tx ∧ Stands d s.prog s.got := by
          cases h.stand with
          | returned _ hdone hstands => exact ⟨hdone, hstands⟩
          | flushing c k p _ _ _ hpc =>
              rw [hreturned.1] at hpc
              cases hpc
          | sending c buf k _ _ hbusy => exact absurd hreturned.2 hbusy
          | receiving c maxLen timeout k t0 base _ _ hbusy => exact absurd hreturned.2 hbusy
        exact matched_program h hreturned hstands.1 hstands.2 hstep
      · rename_i hbusy
        rw [if_neg hbusy]
        obtain ⟨link, hlink, rfl⟩ := Option.map_eq_some_iff.mp hstep
        cases h.stand with
        | returned hreturned => exact absurd hreturned hbusy
        | flushing c k p hentered hprog hidle hpc hprog' hdone hunread =>
            exact matched_flush h hentered hprog hidle hpc hprog' hdone hunread hlink
        | sending c buf k hentered hprog hbusy hsend hprog' hunread =>
            obtain ⟨hacts, hload⟩ := hsend.dialogueActs
            rw [hacts, if_neg hload]
            exact matched_sending h hentered hprog hbusy hsend hprog' hunread hlink
        | receiving c maxLen timeout k t0 base hentered hprog hbusy hrecv hpromised hprog' hgot
            hdone hunread =>
            rw [if_neg (hrecv.recv.not_flush _)]
            exact matched_receiving h hentered hprog hbusy hrecv hpromised hprog' hgot hdone hunread
              (fun _ hpc => hclamp rfl hpc) hlink

theorem refines_init : Refines {} {} where
  mode := rfl
  commands := rfl
  underWay := rfl
  arrived := rfl
  exchanges := rfl
  calls := rfl
  late := rfl
  reply := rfl
  bytes := rfl
  rx := rxAt_init
  stand := .returned ⟨rfl, rfl⟩ ⟨txAt_init, rfl, rfl⟩
    (.outside rfl rfl fun c p hp => by cases hp)

/-- The sending ring is in order up to lags. -/
theorem TxInv.lagging {tx : TxSide} {pc : UartPc} (h : TxInv tx pc) :
    ∃ wrLag pendLag room, TxAt tx wrLag pendLag room := by
  cases pc with
  | put p =>
      cases p with
      | dataStore b rest w => exact ⟨_, _, _, h.1⟩
      | wrStore rest w => exact ⟨_, _, _, h.1⟩
      | pendStore rest p => exact ⟨_, _, _, h.1⟩
      | _ => exact ⟨_, _, _, h⟩
  | _ => exact ⟨_, _, _, h⟩

/-- What is on the wire is a first part of the commands. -/
theorem At.sent_isPrefix {d : Driver} {prog : Option (ModemCall × Serial ℤ)}
    {got : List (ℕ × UInt8)} (h : At d prog got) : d.link.uart.tx.sent <+: d.text := by
  cases h with
  | returned _ htx _ => exact htx.sent_eq ▸ List.prefix_rfl
  | flushing c k p _ _ _ _ _ htx _ => exact htx.sent_eq ▸ List.prefix_rfl
  | receiving c maxLen timeout k t0 base _ _ _ _ _ _ _ htx _ => exact htx.sent_eq ▸ List.prefix_rfl
  | sending c buf k _ _ _ hsend _ _ =>
      obtain ⟨wrLag, pendLag, room, hat⟩ := TxInv.lagging hsend.ring
      have hsent : d.link.uart.tx.sent <+: d.link.uart.tx.queued := hat.sent_isPrefix
      rw [← hsend.stored, List.append_assoc]
      exact hsent.trans (List.prefix_append _ _)

/-! ## The modem's replies -/

/-- The byte is one of the reply with its number. -/
def OfReply (replies : List (List UInt8)) (x : ℕ × UInt8) : Prop :=
  ∃ reply, replies[x.1]? = some reply ∧ x.2 ∈ reply

/-- The exchange holds the reply to its command, and its late bytes are of
replies. -/
structure ExchangeLog.Recorded (replies : List (List UInt8)) (e : ExchangeLog) : Prop where
  reply_eq : replies[e.command]? = some e.reply
  late : ∀ x ∈ e.late, OfReply replies x

/-- What the driver notes is of the modem's replies. -/
structure RepliesKept (d : Driver) : Prop where
  length : d.replies.length = d.commands.length
  underWay : ∀ x ∈ d.underWay, OfReply d.replies x
  late : ∀ x ∈ d.late, OfReply d.replies x
  exchanges : ∀ e ∈ d.exchanges, e.Recorded d.replies
  calls : ∀ log ∈ d.calls, ∀ e ∈ log.exchanges, e.Recorded d.replies

theorem getElem?_replies {replies : List (List UInt8)} {n : ℕ} {reply : List UInt8}
    (h : replies[n]? = some reply) (new : List UInt8) :
    (replies ++ [new])[n]? = some reply := by
  obtain ⟨hlt, -⟩ := List.getElem?_eq_some_iff.mp h
  rw [List.getElem?_append_left hlt, h]

theorem OfReply.append {replies : List (List UInt8)} {x : ℕ × UInt8} (h : OfReply replies x)
    (new : List UInt8) : OfReply (replies ++ [new]) x := by
  obtain ⟨reply, hreply, hx⟩ := h
  exact ⟨reply, getElem?_replies hreply new, hx⟩

theorem ExchangeLog.Recorded.append {replies : List (List UInt8)} {e : ExchangeLog}
    (h : e.Recorded replies) (new : List UInt8) : e.Recorded (replies ++ [new]) where
  reply_eq := getElem?_replies h.reply_eq new
  late x hx := (h.late x hx).append new

theorem repliesKept_init : RepliesKept {} where
  length := rfl
  underWay x hx := by simp at hx
  late x hx := by simp at hx
  exchanges e he := by simp at he
  calls log hlog := by simp at hlog

/-- The bytes of the new reply are put behind those under way. -/
theorem RepliesKept.send {d : Driver} (h : RepliesKept d) (link : Link) (buf reply : List UInt8) :
    RepliesKept { d with
      link := link
      entered := true
      underWay := d.underWay ++ Line.numbered d.commands.length reply
      commands := d.commands ++ [buf]
      replies := d.replies ++ [reply] } where
  length := by rw [List.length_append, List.length_append, h.length]; rfl
  underWay x hx := by
    rcases List.mem_append.mp hx with hx | hx
    · exact (h.underWay x hx).append reply
    · obtain ⟨b, hb, rfl⟩ := List.mem_map.mp hx
      refine ⟨reply, ?_, hb⟩
      rw [← h.length]
      exact List.getElem?_concat_length
  late x hx := (h.late x hx).append reply
  exchanges e he := (h.exchanges e he).append reply
  calls log hlog e he := (h.calls log hlog e he).append reply

/-- The last command's reply is noted, where one has been sent. -/
theorem repliesKept_program {d t : Driver} (h : RepliesKept d)
    (hasked : ∀ c maxLen timeout k, d.prog = some (c, .recv maxLen timeout k) → d.commands ≠ [])
    (hstep : programNext d = some t) : RepliesKept t := by
  unfold programNext at hstep
  split at hstep
  · obtain ⟨uart, -, rfl⟩ := Option.map_eq_some_iff.mp hstep
    exact { h with }
  · cases hstep
    exact { h with }
  · cases hstep
    exact { h with }
  · obtain ⟨link, -, rfl⟩ := Option.map_eq_some_iff.mp hstep
    exact { h with }
  · rename_i c maxLen timeout k hprog hentered
    cases hstep
    have hnil : d.replies ≠ [] := by
      intro hnil
      apply hasked c maxLen timeout k hprog
      rw [← List.length_eq_zero_iff, ← h.length, hnil, List.length_nil]
    refine { h with exchanges := ?_ }
    intro e he
    rcases List.mem_cons.mp he with rfl | he
    · refine ⟨?_, h.late⟩
      show d.replies[d.commands.length - 1]? = some (d.replies.getLastD [])
      rw [← h.length, ← List.getLast?_eq_getElem?, List.getLast?_eq_some_getLast hnil,
        List.getLastD_eq_getLast?, List.getLast?_eq_some_getLast hnil, Option.getD_some]
    · exact h.exchanges e he
  · cases hstep
    exact { h with }
  · cases hstep
    refine { h with exchanges := (fun e he => by cases he), calls := ?_ }
    intro log hlog
    rcases List.mem_cons.mp hlog with rfl | hlog
    · exact h.exchanges
    · exact h.calls log hlog
  · cases hstep

theorem repliesKept_step {d t : Driver} {a : DriverAct} (h : RepliesKept d)
    (hasked : ∀ c maxLen timeout k, d.prog = some (c, .recv maxLen timeout k) → d.commands ≠ [])
    (hstep : driverStep d a = some t) : RepliesKept t := by
  cases a with
  | elapse n =>
      simp only [driverStep] at hstep
      obtain ⟨link, -, rfl⟩ := Option.map_eq_some_iff.mp hstep
      exact { h with }
  | txIrq =>
      simp only [driverStep] at hstep
      obtain ⟨link, -, rfl⟩ := Option.map_eq_some_iff.mp hstep
      exact { h with }
  | rxIrq =>
      simp only [driverStep] at hstep
      split at hstep
      · cases hstep
      · rename_i x rest hway
        obtain ⟨link, -, rfl⟩ := Option.map_eq_some_iff.mp hstep
        refine { h with underWay := fun y hy => h.underWay y ?_ }
        rw [hway]
        exact List.mem_cons_of_mem x hy
  | call c =>
      simp only [driverStep] at hstep
      split at hstep <;> cases hstep
      exact { h with }
  | send reply =>
      simp only [driverStep] at hstep
      split at hstep <;> cases hstep
      exact h.send _ _ reply
  | next =>
      simp only [driverStep] at hstep
      split at hstep
      · exact repliesKept_program h hasked hstep
      · obtain ⟨link, -, rfl⟩ := Option.map_eq_some_iff.mp hstep
        refine { h with late := fun x hx => ?_ }
        -- a flush notes what is under way
        have hx' : x ∈ d.underWay ∨ x ∈ d.late := by
          dsimp only at hx
          split at hx
          · exact Or.inl hx
          · exact Or.inr hx
        exact hx'.elim (h.underWay x) (h.late x)

/-- Where the program receives, a command has been sent. -/
theorem Refines.asked {d : Driver} {s : Dialogue} (h : Refines d s) (hinv : DialogueInv s)
    (c : ModemCall) (maxLen : ℕ) (timeout : UInt32) (k : List UInt8 → ℤ → Serial ℤ)
    (hprog : d.prog = some (c, .recv maxLen timeout k)) : d.commands ≠ [] := by
  have hprog' : s.prog = d.prog := by
    cases h.stand with
    | returned _ _ hstands =>
        cases hstands with
        | outside _ hprog' _ => exact hprog'
        | received _ _ _ _ _ _ hprog' => exact hprog'
        | _ => simp_all
    | receiving _ _ _ _ _ _ _ _ _ _ _ hprog' => exact hprog'
    | _ => simp_all
  obtain ⟨phase, hfollows, hphase⟩ := hinv.phase c _ (hprog'.trans hprog)
  cases phase with
  | free => exact hfollows.elim
  | flushed => exact hfollows.elim
  | asked =>
      obtain ⟨hpos, -⟩ := hphase
      rw [h.commands] at hpos
      exact List.ne_nil_of_length_pos hpos

/-! ## Runs -/

theorem Driver.programActs_reverse (d : Driver) : d.programActs.reverse = d.programActs := by
  unfold Driver.programActs
  split <;> rfl

theorem UartPc.dialogueActs_reverse (pc : UartPc) :
    pc.dialogueActs.reverse = pc.dialogueActs := by
  unfold UartPc.dialogueActs
  split <;> rfl

/-- A step of the driver makes one step of the dialogue at most. -/
theorem Driver.dialogueActs_reverse (d : Driver) (a : DriverAct) :
    (d.dialogueActs a).reverse = d.dialogueActs a := by
  cases a with
  | next =>
      simp only [Driver.dialogueActs]
      split
      · exact d.programActs_reverse
      · exact UartPc.dialogueActs_reverse _
  | _ => rfl

/-- The dialogue follows the driver. -/
theorem refines_run {acts : List DriverAct} {d : Driver}
    (hcond : Along driverStep RingsKept {} acts) (hrun : run driverStep {} acts = some d) :
    ∃ s, run dialogueStep {} (noted driverStep Driver.dialogueActs {} acts).reverse = some s ∧
      Refines d s ∧ DialogueInv s ∧ RepliesKept d := by
  refine run_sim_noted (R := fun d s => Refines d s ∧ DialogueInv s ∧ RepliesKept d) ?_
    ⟨refines_init, dialogueInv_init, repliesKept_init⟩ hcond hrun
  rintro u a v s ⟨href, hinv, hkept⟩ hC hstep
  obtain ⟨s', hs', href'⟩ := matched_step href hC hstep
  refine ⟨s', ?_, href', ?_, repliesKept_step hkept (href.asked hinv) hstep⟩
  · rw [Driver.dialogueActs_reverse]
    exact hs'
  · exact run_inv (fun u a v h hstep => dialogueInv_step u a v h hstep) hinv hs'

/-- **The driver refines the dialogue.** In every run of `CellularCheckModem`,
`CellularSetOperator`, the two profile functions and `CellularConnect` on the
driver, whatever the handlers do between two accesses, the dialogue can make
just the steps which the steps of the driver give, with the modem's replies of
that run, and it ends with the same finished calls, results and exchanges, the
same bytes on the line and the same `transparentMode`; if a byte that arrives
finds room, no handler changes a count between its load and its store, and the
count that limits a copy fits. What is on the wire is a first part of the
commands, and all of them when no serial function is in progress. -/
theorem driver_refines_dialogue (acts : List DriverAct) (d : Driver)
    (hcond : Along driverStep RingsKept {} acts) (hrun : run driverStep {} acts = some d) :
    (∃ s, run dialogueStep {} (noted driverStep Driver.dialogueActs {} acts).reverse = some s ∧
      Agrees d s) ∧
    d.link.uart.tx.sent <+: d.text ∧ (d.entered = false → d.link.uart.tx.sent = d.text) := by
  obtain ⟨s, hs, href, -, -⟩ := refines_run hcond hrun
  refine ⟨⟨s, hs, href.toAgrees⟩, href.stand.sent_isPrefix, ?_⟩
  intro hentered
  obtain ⟨-, htx, -⟩ := href.stand.outside hentered
  exact htx.sent_eq

/-- The late bytes are of replies to earlier commands, and what `SerialRecv`
returned is a first part of them and of the modem's reply to the command. -/
structure ExchangeLog.Credited (replies : List (List UInt8)) (e : ExchangeLog) : Prop
    extends e.Recorded replies where
  late_lt : ∀ x ∈ e.late, x.1 < e.command
  text_isPrefix : e.text <+: e.late.map Prod.snd ++ e.reply

/-- One of the words stands in what `SerialRecv` returned. -/
def ExchangeLog.Found (words : List (List UInt8)) (e : ExchangeLog) : Prop :=
  words.any (answers e.text) = true

theorem ExchangeOk.log_isPrefix {e : Exchange} (h : ExchangeOk e) :
    e.log.text <+: e.log.late.map Prod.snd ++ e.log.reply := by
  have hbytes := h.got_isPrefix.map Prod.snd
  rw [List.map_append, Line.numbered, List.map_map] at hbytes
  have hid : (Prod.snd ∘ fun b : UInt8 => (e.command, b)) = id := rfl
  rw [hid, List.map_id] at hbytes
  exact hbytes

/-- **The replies on the driver.** What each `SerialRecv` of a finished call has
returned is a first part of what was under way at the flush, which are bytes of
the replies to earlier commands, and of the modem's reply to its own command;
and a call that has returned 0 has found its words in them, one after the
other. -/
theorem replies_on_driver (acts : List DriverAct) (d : Driver)
    (hcond : Along driverStep RingsKept {} acts) (hrun : run driverStep {} acts = some d) :
    ∀ log ∈ d.calls, (∀ e ∈ log.exchanges, e.Credited d.replies) ∧
      (log.result = 0 → List.Forall₂ ExchangeLog.Found log.call.words log.exchanges.reverse) := by
  obtain ⟨s, -, href, hinv, hkept⟩ := refines_run hcond hrun
  intro log hlog
  have hrecorded := hkept.calls log hlog
  rw [← href.calls, List.mem_map] at hlog
  obtain ⟨r, hr, rfl⟩ := hlog
  obtain ⟨hok, hmatched⟩ := hinv.calls r hr
  refine ⟨fun e he => ?_, fun hzero => ?_⟩
  · obtain ⟨x, hx, rfl⟩ := List.mem_map.mp he
    exact ⟨hrecorded _ he, (hok x hx).late_lt, (hok x hx).log_isPrefix⟩
  · show List.Forall₂ ExchangeLog.Found r.call.words (r.exchanges.map Exchange.log).reverse
    rw [← List.map_reverse, List.forall₂_map_right_iff]
    exact hmatched hzero

/-- `CellularCheckModem`, answered at once; the handlers run in between. -/
def checkRun : List DriverAct :=
  .call .checkModem :: List.replicate 6 .next ++ .send OK :: List.replicate 28 .next ++
    List.replicate 4 .txIrq ++ List.replicate 3 .next ++
    [.rxIrq, .next, .next, .rxIrq] ++ List.replicate 22 .next ++ .elapse 3000 ::
    List.replicate 5 .next

theorem checkRun_result :
    (run driverStep {} checkRun).map (fun d => (d.entered, d.calls)) =
      some (false, [⟨.checkModem, 0, [⟨[], 0, OK, OK⟩]⟩]) := by
  decide +kernel

theorem checkRun_ringsKept : Along driverStep RingsKept {} checkRun := by
  decide +kernel

theorem checkRun_refines : ∃ d, run driverStep {} checkRun = some d ∧
    d.link.uart.tx.sent = d.text ∧
    ∃ s, run dialogueStep {} (noted driverStep Driver.dialogueActs {} checkRun).reverse = some s ∧
      s.calls.map CallRecord.log = [⟨.checkModem, 0, [⟨[], 0, OK, OK⟩]⟩] := by
  obtain ⟨d, hd, hresult⟩ := Option.map_eq_some_iff.mp checkRun_result
  obtain ⟨hentered, hcalls⟩ := Prod.mk.inj hresult
  obtain ⟨⟨s, hs, hagrees⟩, -, hsent⟩ := driver_refines_dialogue checkRun d checkRun_ringsKept hd
  exact ⟨d, hd, hsent hentered, s, hs, hagrees.calls.trans hcalls⟩

theorem checkRun_replies : ∃ d, run driverStep {} checkRun = some d ∧
    ∃ e : ExchangeLog, e.text = OK ∧ e.Credited d.replies ∧
      List.Forall₂ ExchangeLog.Found [[OK]] [e] := by
  obtain ⟨d, hd, hresult⟩ := Option.map_eq_some_iff.mp checkRun_result
  obtain ⟨-, hcalls⟩ := Prod.mk.inj hresult
  obtain ⟨hcredited, hfound⟩ := replies_on_driver checkRun d checkRun_ringsKept hd
    ⟨.checkModem, 0, [⟨[], 0, OK, OK⟩]⟩ (by rw [hcalls]; exact List.mem_singleton_self _)
  exact ⟨d, hd, _, rfl, hcredited _ (List.mem_singleton_self _), hfound rfl⟩

end SmartDoorLock
