import SmartDoorLock.Lib.Machine
import SmartDoorLock.Lib.Ring
import SmartDoorLock.Lib.WrapClock

/-!
# The UART rings

`UartPutData`, `UartGetData` and `SerialFlushInputBuff` on the main line, and
the two interrupt handlers. `rxBuf` and `txBuf` are `volatile`, so every access
to one of their fields is a load or a store of its own: one step of the main
line is one such access, with the local computation around it, and a handler
may run to completion between any two steps.

Beside the code's own data a state keeps what is needed to say what the rings
are for: every byte the receive handler stored and how many of them are taken
out or flushed, and every byte `UartPutData` stored and those transmitted.
-/

namespace SmartDoorLock

open WrapClock

/-! ## The ring and its handlers -/

abbrev CIRCULAR_BUF_SIZE : ℕ := 256

/-- `struct circular_buf`. -/
structure CircularBuf where
  data : ℕ → UInt8 := fun _ => 0
  rdI : ℕ := 0
  wrI : ℕ := 0
  pendingBytes : ℕ := 0
  overflow : Bool := false

/-- `(i + 1) & (CIRCULAR_BUF_SIZE - 1)`. -/
def nextI (i : ℕ) : ℕ := (i + 1) &&& (CIRCULAR_BUF_SIZE - 1)

theorem nextI_eq (i : ℕ) : nextI i = (i + 1) % 256 := Nat.and_two_pow_sub_one_eq_mod (i + 1) 8

/-- `n++` on a `uint32_t`. -/
def inc32 (n : ℕ) : ℕ := if n = 2 ^ 32 - 1 then 0 else n + 1

/-- `n--` on a `uint32_t`. -/
def dec32 (n : ℕ) : ℕ := if n = 0 then 2 ^ 32 - 1 else n - 1

theorem inc32_eq {n : ℕ} (h : n < 2 ^ 32 - 1) : inc32 n = n + 1 := if_neg (Nat.ne_of_lt h)

theorem dec32_eq {n : ℕ} (h : 0 < n) : dec32 n = n - 1 := if_neg (Nat.ne_of_gt h)

/-- `rxBuf`, the bytes its handler has stored, and how many of these have been
copied out or flushed. -/
structure RxSide where
  buf : CircularBuf := {}
  received : List UInt8 := []
  taken : ℕ := 0

/-- `txBuf`, whether the interrupt `TXBL` is enabled, the bytes stored by
`UartPutData` and the bytes handed to `USART_Tx`. -/
structure TxSide where
  buf : CircularBuf := {}
  txbl : Bool := false
  queued : List UInt8 := []
  sent : List UInt8 := []

/-- `USART0_RX_IRQHandler`, with `RXDATAV` set and `rxData` read from the UART. -/
def usart0RxIrqHandler (rx : RxSide) (rxData : UInt8) : RxSide :=
  let pending := inc32 rx.buf.pendingBytes
  { rx with
    buf := {
      data := Function.update rx.buf.data rx.buf.wrI rxData
      rdI := rx.buf.rdI
      wrI := nextI rx.buf.wrI
      pendingBytes := pending
      overflow := rx.buf.overflow || decide (pending > CIRCULAR_BUF_SIZE) }
    received := rx.received ++ [rxData] }

/-- The first `if` of `USART0_TX_IRQHandler`: a byte is transmitted. -/
def transmit (tx : TxSide) : TxSide :=
  if tx.buf.pendingBytes > 0 then
    { tx with
      buf := { tx.buf with
        rdI := nextI tx.buf.rdI
        pendingBytes := dec32 tx.buf.pendingBytes }
      sent := tx.sent ++ [tx.buf.data tx.buf.rdI] }
  else tx

/-- `USART0_TX_IRQHandler`, with `TXBL` set in `STATUS`. -/
def usart0TxIrqHandler (tx : TxSide) : TxSide :=
  let tx := transmit tx
  if tx.buf.pendingBytes = 0 then { tx with txbl := false } else tx

/-! ## The functions of the main line -/

/-- Points of `UartPutData`; `rest` is what of `data` is not stored yet. -/
inductive PutPc where
  /-- the condition of the `if` -/
  | ifFull (rest : List UInt8)
  /-- the condition of the `while` in it -/
  | whileFull (rest : List UInt8)
  /-- the head of the copying loop, and the load of `wrI` -/
  | head (rest : List UInt8)
  | dataStore (b : UInt8) (rest : List UInt8) (w : ℕ)
  | wrLoad (rest : List UInt8)
  | wrStore (rest : List UInt8) (w : ℕ)
  | pendLoad (rest : List UInt8)
  | pendStore (rest : List UInt8) (p : ℕ)
deriving DecidableEq, Repr

/-- One step of `UartPutData`; `none` is the return. -/
def putNext (tx : TxSide) : PutPc → TxSide × Option PutPc
  | .ifFull rest =>
      (tx, some (if tx.buf.pendingBytes + rest.length > CIRCULAR_BUF_SIZE then .whileFull rest
        else .head rest))
  | .whileFull rest =>
      (tx, some (if tx.buf.pendingBytes + rest.length > CIRCULAR_BUF_SIZE then .whileFull rest
        else .head rest))
  | .head [] => ({ tx with txbl := true }, none)
  | .head (b :: rest) => (tx, some (.dataStore b rest tx.buf.wrI))
  | .dataStore b rest w =>
      ({ tx with
          buf := { tx.buf with data := Function.update tx.buf.data w b }
          queued := tx.queued ++ [b] }, some (.wrLoad rest))
  | .wrLoad rest => (tx, some (.wrStore rest tx.buf.wrI))
  | .wrStore rest w => ({ tx with buf := { tx.buf with wrI := nextI w } }, some (.pendLoad rest))
  | .pendLoad rest => (tx, some (.pendStore rest tx.buf.pendingBytes))
  | .pendStore rest p =>
      ({ tx with buf := { tx.buf with pendingBytes := inc32 p } }, some (.head rest))

/-- Points of `UartGetData`; `n` bytes are to be copied and `out` is copied. -/
inductive GetPc where
  /-- the first reading of `cur_time` -/
  | start (len : ℕ) (timeout : UInt32)
  /-- the condition of the `if` -/
  | ifEmpty (len : ℕ) (timeout waitStart : UInt32)
  /-- the condition of the `while` in it -/
  | whileEmpty (len : ℕ) (timeout waitStart : UInt32)
  /-- the reading of `cur_time` in the loop -/
  | waited (len : ℕ) (timeout waitStart : UInt32)
  /-- the condition `data_len > rxBuf.pendingBytes` -/
  | ifMore (len : ℕ)
  /-- the assignment under it, with a load of its own -/
  | clamp
  /-- the head of the copying loop, and the load of `rdI` -/
  | head (n : ℕ) (out : List UInt8)
  | dataLoad (n : ℕ) (out : List UInt8) (r : ℕ)
  | rdLoad (n : ℕ) (out : List UInt8)
  | rdStore (n : ℕ) (out : List UInt8) (r : ℕ)
  | pendLoad (n : ℕ) (out : List UInt8)
  | pendStore (n : ℕ) (out : List UInt8) (p : ℕ)
deriving DecidableEq, Repr

/-- One step of `UartGetData`: on to another point, or the return of the bytes
copied, which is `none` for `-1`. -/
def getNext (curTime : UInt32) (rx : RxSide) : GetPc → RxSide × (GetPc ⊕ Option (List UInt8))
  | .start len timeout => (rx, .inl (.ifEmpty len timeout curTime))
  | .ifEmpty len timeout waitStart =>
      (rx, .inl (if rx.buf.pendingBytes < 1 then .whileEmpty len timeout waitStart else .ifMore len))
  | .whileEmpty len timeout waitStart =>
      (rx, .inl (if rx.buf.pendingBytes < 1 then .waited len timeout waitStart else .ifMore len))
  | .waited len timeout waitStart =>
      (rx, if curTime - waitStart ≥ timeout then .inr none
        else .inl (.whileEmpty len timeout waitStart))
  | .ifMore len => (rx, .inl (if len > rx.buf.pendingBytes then .clamp else .head len []))
  | .clamp => (rx, .inl (.head rx.buf.pendingBytes []))
  | .head 0 out => (rx, .inr (some out))
  | .head (n + 1) out => (rx, .inl (.dataLoad n out rx.buf.rdI))
  | .dataLoad n out r =>
      ({ rx with taken := rx.taken + 1 }, .inl (.rdLoad n (out ++ [rx.buf.data r])))
  | .rdLoad n out => (rx, .inl (.rdStore n out rx.buf.rdI))
  | .rdStore n out r => ({ rx with buf := { rx.buf with rdI := nextI r } }, .inl (.pendLoad n out))
  | .pendLoad n out => (rx, .inl (.pendStore n out rx.buf.pendingBytes))
  | .pendStore n out p =>
      ({ rx with buf := { rx.buf with pendingBytes := dec32 p } }, .inl (.head n out))

/-- Points of `SerialFlushInputBuff`. -/
inductive FlushPc where
  | wrLoad
  | rdStore (w : ℕ)
  | pendStore
  | overflowStore
deriving DecidableEq, Repr

/-- One step of `SerialFlushInputBuff`; `none` is the return. What stands
before the loaded `wrI` is flushed. -/
def flushNext (rx : RxSide) : FlushPc → RxSide × Option FlushPc
  | .wrLoad => ({ rx with taken := rx.received.length }, some (.rdStore rx.buf.wrI))
  | .rdStore w => ({ rx with buf := { rx.buf with rdI := w } }, some .pendStore)
  | .pendStore => ({ rx with buf := { rx.buf with pendingBytes := 0 } }, some .overflowStore)
  | .overflowStore => ({ rx with buf := { rx.buf with overflow := false } }, none)

/-! ## Runs -/

inductive UartPc where
  /-- no function of the main line is in progress -/
  | idle
  | put (p : PutPc)
  | get (p : GetPc)
  | flush (p : FlushPc)
deriving DecidableEq, Repr

structure Uart where
  now : ℕ := 0
  rx : RxSide := {}
  tx : TxSide := {}
  pc : UartPc := .idle
  /-- what the last `UartGetData` returned -/
  got : Option (List UInt8) := none

inductive UartAct where
  /-- `d` ms pass -/
  | elapse (d : ℕ)
  /-- a byte has arrived and the receive handler runs -/
  | rxIrq (rxData : UInt8)
  /-- the transmit handler runs -/
  | txIrq
  | callPut (data : List UInt8)
  | callGet (len : ℕ) (timeout : UInt32)
  | callFlush
  /-- the main line makes its next access -/
  | next
deriving DecidableEq, Repr

/-- The next step of the function in progress. -/
def uartNext (s : Uart) : Option Uart :=
  match s.pc with
  | .idle => none
  | .put p =>
      let r := putNext s.tx p
      match r.2 with
      | some p => some { s with tx := r.1, pc := .put p }
      | none => some { s with tx := r.1, pc := .idle }
  | .get p =>
      let r := getNext (stamp s.now) s.rx p
      match r.2 with
      | .inl p => some { s with rx := r.1, pc := .get p }
      | .inr out => some { s with rx := r.1, pc := .idle, got := out }
  | .flush p =>
      let r := flushNext s.rx p
      match r.2 with
      | some p => some { s with rx := r.1, pc := .flush p }
      | none => some { s with rx := r.1, pc := .idle }

def uartStep (s : Uart) : UartAct → Option Uart
  | .elapse d => some { s with now := s.now + d }
  | .rxIrq rxData => some { s with rx := usart0RxIrqHandler s.rx rxData }
  | .txIrq => if s.tx.txbl then some { s with tx := usart0TxIrqHandler s.tx } else none
  | .callPut data =>
      if s.pc = .idle then
        -- more than the ring can hold is refused
        some (if data.length > CIRCULAR_BUF_SIZE then s else { s with pc := .put (.ifFull data) })
      else none
  | .callGet len timeout =>
      if s.pc = .idle then some { s with pc := .get (.start len timeout) } else none
  | .callFlush => if s.pc = .idle then some { s with pc := .flush .wrLoad } else none
  | .next => uartNext s

/-! ## What one step does -/

/-- The next access of the main line: which function it belongs to, and whether
that function goes on or returns. -/
theorem uartNext_cases {s t : Uart} (h : uartNext s = some t) :
    (∃ p p', s.pc = .put p ∧ (putNext s.tx p).2 = some p' ∧
      t = { s with tx := (putNext s.tx p).1, pc := .put p' }) ∨
    (∃ p, s.pc = .put p ∧ (putNext s.tx p).2 = none ∧
      t = { s with tx := (putNext s.tx p).1, pc := .idle }) ∨
    (∃ p p', s.pc = .get p ∧ (getNext (stamp s.now) s.rx p).2 = .inl p' ∧
      t = { s with rx := (getNext (stamp s.now) s.rx p).1, pc := .get p' }) ∨
    (∃ p out, s.pc = .get p ∧ (getNext (stamp s.now) s.rx p).2 = .inr out ∧
      t = { s with rx := (getNext (stamp s.now) s.rx p).1, pc := .idle, got := out }) ∨
    (∃ p p', s.pc = .flush p ∧ (flushNext s.rx p).2 = some p' ∧
      t = { s with rx := (flushNext s.rx p).1, pc := .flush p' }) ∨
    (∃ p, s.pc = .flush p ∧ (flushNext s.rx p).2 = none ∧
      t = { s with rx := (flushNext s.rx p).1, pc := .idle }) := by
  unfold uartNext at h
  cases hpc : s.pc with
  | idle =>
      rw [hpc] at h
      cases h
  | put p =>
      rw [hpc] at h
      cases hret : (putNext s.tx p).2 with
      | some p' =>
          simp only [hret] at h
          cases h
          exact Or.inl ⟨p, p', rfl, hret, rfl⟩
      | none =>
          simp only [hret] at h
          cases h
          exact Or.inr (Or.inl ⟨p, rfl, hret, rfl⟩)
  | get p =>
      rw [hpc] at h
      cases hret : (getNext (stamp s.now) s.rx p).2 with
      | inl p' =>
          simp only [hret] at h
          cases h
          exact Or.inr (Or.inr (Or.inl ⟨p, p', rfl, hret, rfl⟩))
      | inr out =>
          simp only [hret] at h
          cases h
          exact Or.inr (Or.inr (Or.inr (Or.inl ⟨p, out, rfl, hret, rfl⟩)))
  | flush p =>
      rw [hpc] at h
      cases hret : (flushNext s.rx p).2 with
      | some p' =>
          simp only [hret] at h
          cases h
          exact Or.inr (Or.inr (Or.inr (Or.inr (Or.inl ⟨p, p', rfl, hret, rfl⟩))))
      | none =>
          simp only [hret] at h
          cases h
          exact Or.inr (Or.inr (Or.inr (Or.inr (Or.inr ⟨p, rfl, hret, rfl⟩))))

end SmartDoorLock
