import SmartDoorLock.Serial.Uart

/-!
# Consistency of the rings under interrupts

Each side of the UART is compared with the log of the bytes that went through
its ring. Between two accesses of a function of the main line an index or the
count may lag behind by one; the lags are part of the invariant of the point at
which the function stands, and all are gone when it returns.

The count is where the two sides meet: `pendingBytes++` and `pendingBytes--` of
the main line are a load and a store, and a handler that changes the count in
between is undone by the store. `SerialFlushInputBuff` has the same gap between
its load of `wrI` and its store of the count.
-/

namespace SmartDoorLock

open WrapClock

/-! ## The property and the conditions -/

/-- The indices differ by the count, and the count is that of the bytes stored
and not yet taken out. -/
def RingOk (buf : CircularBuf) (stored taken : ℕ) : Prop :=
  buf.wrI = (buf.rdI + buf.pendingBytes) % 256 ∧ taken + buf.pendingBytes = stored

/-- Both rings are consistent. -/
def RingsOk (s : Uart) : Prop :=
  RingOk s.rx.buf s.rx.received.length s.rx.taken ∧
    RingOk s.tx.buf s.tx.queued.length s.tx.sent.length

/-- There is room for a byte that arrives. -/
def RxRoom (s : Uart) (a : UartAct) : Prop :=
  ∀ b, a = .rxIrq b → s.rx.received.length < s.rx.taken + 256

/-- Points at which the main line has loaded what the receive handler changes,
and has not yet stored the count. -/
def UartPc.rxExposed : UartPc → Bool
  | .get (.pendStore _ _ _) => true
  | .flush (.rdStore _) => true
  | .flush .pendStore => true
  | _ => false

/-- The point between the load and the store of `pendingBytes++`. -/
def UartPc.txExposed : UartPc → Bool
  | .put (.pendStore _ _) => true
  | _ => false

/-- No handler changes a count that the main line is about to store. -/
def NoRace (s : Uart) (a : UartAct) : Prop :=
  (∀ b, a = .rxIrq b → s.pc.rxExposed = false) ∧
    (a = .txIrq → 0 < s.tx.buf.pendingBytes → s.pc.txExposed = false)

/-! ## The receiving side -/

/-- The ring against the log of received bytes; the read index and the count
lag behind by `rdLag` and `pendLag`. -/
structure RxAt (rx : RxSide) (rdLag pendLag : ℕ) : Prop where
  holds : Ring.Holds 256 rx.buf.data rx.received rx.taken
  wrI_eq : rx.buf.wrI = rx.received.length % 256
  rdI_lt : rx.buf.rdI < 256
  rdI_eq : (rx.buf.rdI + rdLag) % 256 = rx.taken % 256
  pending_eq : rx.taken + rx.buf.pendingBytes = rx.received.length + pendLag

/-- The ring after the load of `wrI` in a flush: everything received is
flushed, and only the write index still counts. -/
structure RxFlushed (rx : RxSide) : Prop where
  holds : Ring.Holds 256 rx.buf.data rx.received rx.taken
  wrI_eq : rx.buf.wrI = rx.received.length % 256
  taken_eq : rx.taken = rx.received.length

/-- What holds at a point of `UartGetData`. -/
def GetInv (rx : RxSide) : GetPc → Prop
  | .head n _ => RxAt rx 0 0 ∧ rx.taken + n ≤ rx.received.length
  | .dataLoad n _ r => (RxAt rx 0 0 ∧ rx.taken + (n + 1) ≤ rx.received.length) ∧ r = rx.buf.rdI
  | .rdLoad n _ => RxAt rx 1 1 ∧ rx.taken + n ≤ rx.received.length
  | .rdStore n _ r => (RxAt rx 1 1 ∧ rx.taken + n ≤ rx.received.length) ∧ r = rx.buf.rdI
  | .pendLoad n _ => RxAt rx 0 1 ∧ rx.taken + n ≤ rx.received.length
  | .pendStore n _ p =>
      (RxAt rx 0 1 ∧ rx.taken + n ≤ rx.received.length) ∧ p = rx.buf.pendingBytes
  | _ => RxAt rx 0 0

/-- What holds at a point of `SerialFlushInputBuff`. -/
def FlushInv (rx : RxSide) : FlushPc → Prop
  | .rdStore w => RxFlushed rx ∧ w = rx.buf.wrI
  | .pendStore => RxFlushed rx ∧ rx.buf.rdI = rx.buf.wrI
  | _ => RxAt rx 0 0

def RxInv (rx : RxSide) : UartPc → Prop
  | .get p => GetInv rx p
  | .flush p => FlushInv rx p
  | _ => RxAt rx 0 0

theorem rxAt_init : RxAt {} 0 0 where
  holds := Ring.holds_nil _
  wrI_eq := rfl
  rdI_lt := by decide
  rdI_eq := rfl
  pending_eq := rfl

/-- The handler appends a byte to the log and keeps the lags. -/
theorem RxAt.rxIrq {rx : RxSide} {rdLag pendLag : ℕ} (h : RxAt rx rdLag pendLag)
    (hlag : pendLag ≤ 1) (hroom : rx.received.length < rx.taken + 256) (b : UInt8) :
    RxAt (usart0RxIrqHandler rx b) rdLag pendLag := by
  have hpending := h.pending_eq
  have htaken := h.holds.taken_le
  constructor
  · show Ring.Holds 256 (Function.update rx.buf.data rx.buf.wrI b) (rx.received ++ [b]) rx.taken
    rw [h.wrI_eq]
    exact h.holds.push hroom b
  · show nextI rx.buf.wrI = (rx.received ++ [b]).length % 256
    rw [nextI_eq, h.wrI_eq, List.length_append, List.length_singleton]
    omega
  · exact h.rdI_lt
  · exact h.rdI_eq
  · show rx.taken + inc32 rx.buf.pendingBytes = (rx.received ++ [b]).length + pendLag
    rw [inc32_eq (by omega), List.length_append, List.length_singleton]
    omega

theorem received_rxIrq (rx : RxSide) (b : UInt8) :
    (usart0RxIrqHandler rx b).received.length = rx.received.length + 1 := by
  show (rx.received ++ [b]).length = _
  rw [List.length_append, List.length_singleton]

theorem rxInv_rxIrq {rx : RxSide} {pc : UartPc} (h : RxInv rx pc)
    (hroom : rx.received.length < rx.taken + 256) (hrace : pc.rxExposed = false) (b : UInt8) :
    RxInv (usart0RxIrqHandler rx b) pc := by
  -- a bound on what is to be copied stays true while the log grows
  have hmono : ∀ n, rx.taken + n ≤ rx.received.length →
      (usart0RxIrqHandler rx b).taken + n ≤ (usart0RxIrqHandler rx b).received.length := by
    intro n hn
    rw [received_rxIrq]
    exact hn.trans (Nat.le_succ _)
  cases pc with
  | idle => exact RxAt.rxIrq h (by decide) hroom b
  | put p => exact RxAt.rxIrq h (by decide) hroom b
  | get p =>
      cases p with
      | head n out => exact ⟨h.1.rxIrq (by decide) hroom b, hmono n h.2⟩
      | dataLoad n out r => exact ⟨⟨h.1.1.rxIrq (by decide) hroom b, hmono (n + 1) h.1.2⟩, h.2⟩
      | rdLoad n out => exact ⟨h.1.rxIrq (by decide) hroom b, hmono n h.2⟩
      | rdStore n out r => exact ⟨⟨h.1.1.rxIrq (by decide) hroom b, hmono n h.1.2⟩, h.2⟩
      | pendLoad n out => exact ⟨h.1.rxIrq (by decide) hroom b, hmono n h.2⟩
      | pendStore n out p => exact Bool.noConfusion hrace
      | _ => exact RxAt.rxIrq h (by decide) hroom b
  | flush p =>
      cases p with
      | rdStore w => exact Bool.noConfusion hrace
      | pendStore => exact Bool.noConfusion hrace
      | _ => exact RxAt.rxIrq h (by decide) hroom b

/-- The copy of one byte: it is the oldest one in the ring. -/
theorem getNext_dataLoad {rx : RxSide} {n r : ℕ} {out : List UInt8}
    (h : GetInv rx (.dataLoad n out r)) (curTime : UInt32) :
    ∃ hlt : rx.taken < rx.received.length, getNext curTime rx (.dataLoad n out r) =
      ({ rx with taken := rx.taken + 1 }, .inl (.rdLoad n (out ++ [rx.received[rx.taken]]))) := by
  obtain ⟨⟨hat, hn⟩, rfl⟩ := h
  have hlt : rx.taken < rx.received.length := by omega
  have hcell : rx.buf.data rx.buf.rdI = rx.received[rx.taken] := by
    have hrd : rx.buf.rdI = rx.taken % 256 := by
      have hmod := hat.rdI_eq
      rwa [Nat.add_zero, Nat.mod_eq_of_lt hat.rdI_lt] at hmod
    rw [hrd]
    exact hat.holds.front hlt
  refine ⟨hlt, ?_⟩
  rw [← hcell]
  rfl

/-- `UartGetData` keeps its invariant up to its return. -/
theorem getInv_getNext {rx : RxSide} {p : GetPc} (h : GetInv rx p) (curTime : UInt32) :
    Sum.elim (fun p' => GetInv (getNext curTime rx p).1 p')
      (fun _ => RxAt (getNext curTime rx p).1 0 0) (getNext curTime rx p).2 := by
  cases p with
  | start len timeout => exact h
  | ifEmpty len timeout waitStart =>
      simp only [getNext, Sum.elim_inl]
      split <;> exact h
  | whileEmpty len timeout waitStart =>
      simp only [getNext, Sum.elim_inl]
      split <;> exact h
  | waited len timeout waitStart =>
      simp only [getNext]
      split <;> exact h
  | ifMore len =>
      have hat : RxAt rx 0 0 := h
      have hpending := hat.pending_eq
      simp only [getNext, Sum.elim_inl]
      split
      · exact h
      · refine ⟨hat, ?_⟩
        omega
  | clamp =>
      have hat : RxAt rx 0 0 := h
      have hpending := hat.pending_eq
      refine ⟨hat, ?_⟩
      show rx.taken + rx.buf.pendingBytes ≤ rx.received.length
      omega
  | head n out =>
      cases n with
      | zero => exact h.1
      | succ n => exact ⟨h, rfl⟩
  | dataLoad n out r =>
      obtain ⟨⟨hat, hn⟩, rfl⟩ := h
      have hrd := hat.rdI_eq
      have hpending := hat.pending_eq
      refine ⟨⟨?_, hat.wrI_eq, hat.rdI_lt, ?_, ?_⟩, ?_⟩
      · apply hat.holds.pop (Nat.le_succ _)
        show rx.taken + 1 ≤ rx.received.length
        omega
      · show (rx.buf.rdI + 1) % 256 = (rx.taken + 1) % 256
        omega
      · show rx.taken + 1 + rx.buf.pendingBytes = rx.received.length + 1
        omega
      · show rx.taken + 1 + n ≤ rx.received.length
        omega
  | rdLoad n out => exact ⟨h, rfl⟩
  | rdStore n out r =>
      obtain ⟨⟨hat, hn⟩, rfl⟩ := h
      have hrd := hat.rdI_eq
      refine ⟨⟨hat.holds, hat.wrI_eq, ?_, ?_, hat.pending_eq⟩, hn⟩
      · show nextI rx.buf.rdI < 256
        rw [nextI_eq]
        exact Nat.mod_lt _ (by decide)
      · show (nextI rx.buf.rdI + 0) % 256 = rx.taken % 256
        rw [nextI_eq]
        omega
  | pendLoad n out => exact ⟨h, rfl⟩
  | pendStore n out p =>
      obtain ⟨⟨hat, hn⟩, rfl⟩ := h
      have hpending := hat.pending_eq
      have hfits := hat.holds.fits
      refine ⟨⟨hat.holds, hat.wrI_eq, hat.rdI_lt, hat.rdI_eq, ?_⟩, hn⟩
      show rx.taken + dec32 rx.buf.pendingBytes = rx.received.length + 0
      rw [dec32_eq (by omega)]
      omega

/-- `SerialFlushInputBuff` keeps its invariant up to its return. -/
theorem flushInv_flushNext {rx : RxSide} {p : FlushPc} (h : FlushInv rx p) :
    (flushNext rx p).2.elim (RxAt (flushNext rx p).1 0 0)
      (fun p' => FlushInv (flushNext rx p).1 p') := by
  cases p with
  | wrLoad =>
      have hat : RxAt rx 0 0 := h
      exact ⟨⟨hat.holds.pop hat.holds.taken_le le_rfl, hat.wrI_eq, rfl⟩, rfl⟩
  | rdStore w =>
      obtain ⟨hflushed, rfl⟩ := h
      exact ⟨⟨hflushed.holds, hflushed.wrI_eq, hflushed.taken_eq⟩, rfl⟩
  | pendStore =>
      obtain ⟨hflushed, hrd⟩ := h
      have hlen : rx.buf.rdI = rx.received.length % 256 := hrd.trans hflushed.wrI_eq
      refine ⟨hflushed.holds, hflushed.wrI_eq, ?_, ?_, ?_⟩
      · show rx.buf.rdI < 256
        omega
      · show (rx.buf.rdI + 0) % 256 = rx.taken % 256
        rw [hflushed.taken_eq]
        omega
      · show rx.taken + 0 = rx.received.length + 0
        rw [hflushed.taken_eq]
  | overflowStore =>
      have hat : RxAt rx 0 0 := h
      exact ⟨hat.holds, hat.wrI_eq, hat.rdI_lt, hat.rdI_eq, hat.pending_eq⟩

theorem RxAt.ringOk {rx : RxSide} (h : RxAt rx 0 0) :
    RingOk rx.buf rx.received.length rx.taken := by
  have hrd := h.rdI_eq
  have hpending := h.pending_eq
  constructor
  · rw [h.wrI_eq]
    omega
  · exact hpending

/-! ## The sending side -/

/-- The ring against the log of bytes stored by `UartPutData`; the write index
and the count lag behind, and `room` more bytes fit. -/
structure TxAt (tx : TxSide) (wrLag pendLag room : ℕ) : Prop where
  holds : Ring.Holds 256 tx.buf.data tx.queued tx.sent.length
  sent_isPrefix : tx.sent <+: tx.queued
  rdI_eq : tx.buf.rdI = tx.sent.length % 256
  wrI_lt : tx.buf.wrI < 256
  wrI_eq : (tx.buf.wrI + wrLag) % 256 = tx.queued.length % 256
  pending_eq : tx.sent.length + tx.buf.pendingBytes + pendLag = tx.queued.length
  room_le : tx.queued.length + room ≤ tx.sent.length + 256

/-- What holds at a point of `UartPutData`. -/
def PutInv (tx : TxSide) : PutPc → Prop
  | .ifFull _ => TxAt tx 0 0 0
  | .whileFull _ => TxAt tx 0 0 0
  | .head rest => TxAt tx 0 0 rest.length
  | .dataStore _ rest w => TxAt tx 0 0 (rest.length + 1) ∧ w = tx.buf.wrI
  | .wrLoad rest => TxAt tx 1 1 rest.length
  | .wrStore rest w => TxAt tx 1 1 rest.length ∧ w = tx.buf.wrI
  | .pendLoad rest => TxAt tx 0 1 rest.length
  | .pendStore rest p => TxAt tx 0 1 rest.length ∧ p = tx.buf.pendingBytes

def TxInv (tx : TxSide) : UartPc → Prop
  | .put p => PutInv tx p
  | _ => TxAt tx 0 0 0

theorem txAt_init : TxAt {} 0 0 0 where
  holds := Ring.holds_nil _
  sent_isPrefix := List.prefix_rfl
  rdI_eq := rfl
  wrI_lt := by decide
  wrI_eq := rfl
  pending_eq := rfl
  room_le := by decide

/-- The handler transmits the oldest byte and keeps the lags. -/
theorem TxAt.transmit {tx : TxSide} {wrLag pendLag room : ℕ} (h : TxAt tx wrLag pendLag room) :
    TxAt (transmit tx) wrLag pendLag room := by
  unfold SmartDoorLock.transmit
  split
  · rename_i hpos
    have hpending := h.pending_eq
    have hfits := h.holds.fits
    have hroom := h.room_le
    have hlt : tx.sent.length < tx.queued.length := by omega
    have hcell : tx.buf.data tx.buf.rdI = tx.queued[tx.sent.length] := by
      rw [h.rdI_eq]
      exact h.holds.front hlt
    have hlen : (tx.sent ++ [tx.buf.data tx.buf.rdI]).length = tx.sent.length + 1 := by
      rw [List.length_append, List.length_singleton]
    constructor
    · show Ring.Holds 256 tx.buf.data tx.queued (tx.sent ++ [_]).length
      rw [hlen]
      exact h.holds.pop (Nat.le_succ _) hlt
    · show tx.sent ++ [tx.buf.data tx.buf.rdI] <+: tx.queued
      have htake : tx.sent = tx.queued.take tx.sent.length :=
        List.prefix_iff_eq_take.mp h.sent_isPrefix
      have hnext : tx.sent ++ [tx.queued[tx.sent.length]] =
          tx.queued.take (tx.sent.length + 1) := by
        rw [List.take_succ_eq_append_getElem hlt, ← htake]
      rw [hcell, hnext]
      exact List.take_prefix _ _
    · show nextI tx.buf.rdI = (tx.sent ++ [_]).length % 256
      rw [hlen, nextI_eq, h.rdI_eq]
      omega
    · exact h.wrI_lt
    · exact h.wrI_eq
    · show (tx.sent ++ [_]).length + dec32 tx.buf.pendingBytes + pendLag = tx.queued.length
      rw [hlen, dec32_eq hpos]
      omega
    · show tx.queued.length + room ≤ (tx.sent ++ [_]).length + 256
      rw [hlen]
      omega
  · exact h

theorem TxAt.txIrq {tx : TxSide} {wrLag pendLag room : ℕ} (h : TxAt tx wrLag pendLag room) :
    TxAt (usart0TxIrqHandler tx) wrLag pendLag room := by
  have ht := h.transmit
  unfold usart0TxIrqHandler
  simp only
  split
  · exact { ht with }
  · exact ht

/-- Without a pending byte the handler only disables its interrupt. -/
theorem usart0TxIrqHandler_buf {tx : TxSide} (h : tx.buf.pendingBytes = 0) :
    usart0TxIrqHandler tx = { tx with txbl := false } := by
  simp [usart0TxIrqHandler, transmit, h]

theorem txInv_txIrq {tx : TxSide} {pc : UartPc} (h : TxInv tx pc)
    (hrace : 0 < tx.buf.pendingBytes → pc.txExposed = false) :
    TxInv (usart0TxIrqHandler tx) pc := by
  by_cases hpos : 0 < tx.buf.pendingBytes
  · have hexposed := hrace hpos
    cases pc with
    | put p =>
        -- a loaded `wrI` stays right: the handler does not touch it
        have hwr : (usart0TxIrqHandler tx).buf.wrI = tx.buf.wrI := by
          unfold usart0TxIrqHandler transmit
          simp only [if_pos hpos]
          split <;> rfl
        cases p with
        | dataStore b rest w => exact ⟨h.1.txIrq, h.2.trans hwr.symm⟩
        | wrStore rest w => exact ⟨h.1.txIrq, h.2.trans hwr.symm⟩
        | pendStore rest p => exact Bool.noConfusion hexposed
        | _ => exact TxAt.txIrq h
    | _ => exact TxAt.txIrq h
  · rw [usart0TxIrqHandler_buf (by omega)]
    cases pc with
    | put p =>
        cases p with
        | dataStore b rest w => exact ⟨{ h.1 with }, h.2⟩
        | wrStore rest w => exact ⟨{ h.1 with }, h.2⟩
        | pendStore rest p => exact ⟨{ h.1 with }, h.2⟩
        | _ => exact { (show TxAt tx _ _ _ from h) with }
    | _ => exact { (show TxAt tx _ _ _ from h) with }

/-- `UartPutData` keeps its invariant up to its return. -/
theorem putInv_putNext {tx : TxSide} {p : PutPc} (h : PutInv tx p) :
    (putNext tx p).2.elim (TxAt (putNext tx p).1 0 0 0) (fun p' => PutInv (putNext tx p).1 p') := by
  -- the wait ends when the bytes fit
  have hfull : ∀ rest : List UInt8, TxAt tx 0 0 0 →
      PutInv tx (if tx.buf.pendingBytes + rest.length > CIRCULAR_BUF_SIZE then .whileFull rest
        else .head rest) := by
    intro rest hat
    have hpending := hat.pending_eq
    split
    · exact hat
    · rename_i hfits
      have hle : tx.buf.pendingBytes + rest.length ≤ 256 := Nat.not_lt.mp hfits
      refine { hat with room_le := ?_ }
      omega
  cases p with
  | ifFull rest => exact hfull rest h
  | whileFull rest => exact hfull rest h
  | head rest =>
      cases rest with
      | nil => exact { (show TxAt tx 0 0 0 from h) with }
      | cons b rest => exact ⟨h, rfl⟩
  | dataStore b rest w =>
      obtain ⟨hat, rfl⟩ := h
      have hroom := hat.room_le
      have hwr : tx.buf.wrI = tx.queued.length % 256 := by
        have hmod := hat.wrI_eq
        rwa [Nat.add_zero, Nat.mod_eq_of_lt hat.wrI_lt] at hmod
      have hlen : (tx.queued ++ [b]).length = tx.queued.length + 1 := by
        rw [List.length_append, List.length_singleton]
      constructor
      · show Ring.Holds 256 (Function.update tx.buf.data tx.buf.wrI b) (tx.queued ++ [b]) _
        rw [hwr]
        exact hat.holds.push (by omega) b
      · exact hat.sent_isPrefix.trans (List.prefix_append _ _)
      · exact hat.rdI_eq
      · exact hat.wrI_lt
      · show (tx.buf.wrI + 1) % 256 = (tx.queued ++ [b]).length % 256
        rw [hlen, hwr]
        omega
      · show tx.sent.length + tx.buf.pendingBytes + 1 = (tx.queued ++ [b]).length
        rw [hlen]
        have hpending := hat.pending_eq
        omega
      · show (tx.queued ++ [b]).length + rest.length ≤ tx.sent.length + 256
        rw [hlen]
        omega
  | wrLoad rest => exact ⟨h, rfl⟩
  | wrStore rest w =>
      obtain ⟨hat, rfl⟩ := h
      have hwr := hat.wrI_eq
      refine { hat with wrI_lt := ?_, wrI_eq := ?_ }
      · show nextI tx.buf.wrI < 256
        rw [nextI_eq]
        exact Nat.mod_lt _ (by decide)
      · show (nextI tx.buf.wrI + 0) % 256 = tx.queued.length % 256
        rw [nextI_eq]
        omega
  | pendLoad rest => exact ⟨h, rfl⟩
  | pendStore rest p =>
      obtain ⟨hat, rfl⟩ := h
      have hpending := hat.pending_eq
      have hfits := hat.holds.fits
      refine { hat with pending_eq := ?_ }
      show tx.sent.length + inc32 tx.buf.pendingBytes + 0 = tx.queued.length
      rw [inc32_eq (by omega)]
      omega

theorem TxAt.ringOk {tx : TxSide} (h : TxAt tx 0 0 0) :
    RingOk tx.buf tx.queued.length tx.sent.length := by
  have hwr := h.wrI_eq
  have hlt := h.wrI_lt
  have hpending := h.pending_eq
  constructor
  · rw [h.rdI_eq]
    omega
  · exact hpending

/-! ## Steps and runs -/

/-- Both sides at the point where the main line stands. -/
structure UartInv (s : Uart) : Prop where
  rx : RxInv s.rx s.pc
  tx : TxInv s.tx s.pc

theorem uartInv_init : UartInv {} where
  rx := rxAt_init
  tx := txAt_init

/-- A call starts from two rings without lags. -/
theorem UartInv.atIdle {s : Uart} (h : UartInv s) (hidle : s.pc = .idle) :
    RxAt s.rx 0 0 ∧ TxAt s.tx 0 0 0 := by
  obtain ⟨hrx, htx⟩ := h
  rw [hidle] at hrx htx
  exact ⟨hrx, htx⟩

theorem rxInv_next {s t : Uart} (h : RxInv s.rx s.pc) (hstep : uartNext s = some t) :
    RxInv t.rx t.pc := by
  rcases uartNext_cases hstep with ⟨p, p', hpc, -, rfl⟩ | ⟨p, hpc, -, rfl⟩ |
    ⟨p, p', hpc, hret, rfl⟩ | ⟨p, out, hpc, hret, rfl⟩ | ⟨p, p', hpc, hret, rfl⟩ |
    ⟨p, hpc, hret, rfl⟩ <;> rw [hpc] at h
  · exact h
  · exact h
  · have hget := getInv_getNext h (stamp s.now)
    rw [hret] at hget
    exact hget
  · have hget := getInv_getNext h (stamp s.now)
    rw [hret] at hget
    exact hget
  · have hflush := flushInv_flushNext h
    rw [hret] at hflush
    exact hflush
  · have hflush := flushInv_flushNext h
    rw [hret] at hflush
    exact hflush

theorem txInv_next {s t : Uart} (h : TxInv s.tx s.pc) (hstep : uartNext s = some t) :
    TxInv t.tx t.pc := by
  rcases uartNext_cases hstep with ⟨p, p', hpc, hret, rfl⟩ | ⟨p, hpc, hret, rfl⟩ |
    ⟨p, p', hpc, -, rfl⟩ | ⟨p, out, hpc, -, rfl⟩ | ⟨p, p', hpc, -, rfl⟩ |
    ⟨p, hpc, -, rfl⟩ <;> rw [hpc] at h
  · have hput := putInv_putNext h
    rw [hret] at hput
    exact hput
  · have hput := putInv_putNext h
    rw [hret] at hput
    exact hput
  · exact h
  · exact h
  · exact h
  · exact h

theorem uartInv_step (s : Uart) (a : UartAct) (t : Uart) (h : UartInv s) (hroom : RxRoom s a)
    (hrace : NoRace s a) (hstep : uartStep s a = some t) : UartInv t := by
  cases a with
  | elapse d =>
      cases hstep
      exact ⟨h.rx, h.tx⟩
  | rxIrq rxData =>
      cases hstep
      exact ⟨rxInv_rxIrq h.rx (hroom rxData rfl) (hrace.1 rxData rfl) rxData, h.tx⟩
  | txIrq =>
      simp only [uartStep] at hstep
      split at hstep <;> cases hstep
      exact ⟨h.rx, txInv_txIrq h.tx (hrace.2 rfl)⟩
  | callPut data =>
      simp only [uartStep] at hstep
      split at hstep <;> cases hstep
      rename_i hidle
      obtain ⟨hrx, htx⟩ := h.atIdle hidle
      split
      · exact h
      · exact ⟨hrx, htx⟩
  | callGet len timeout =>
      simp only [uartStep] at hstep
      split at hstep <;> cases hstep
      rename_i hidle
      obtain ⟨hrx, htx⟩ := h.atIdle hidle
      exact ⟨hrx, htx⟩
  | callFlush =>
      simp only [uartStep] at hstep
      split at hstep <;> cases hstep
      rename_i hidle
      obtain ⟨hrx, htx⟩ := h.atIdle hidle
      exact ⟨hrx, htx⟩
  | next => exact ⟨rxInv_next h.rx hstep, txInv_next h.tx hstep⟩

/-- With room for every byte and no race, a whole run keeps the invariant. -/
theorem uartInv_run {acts : List UartAct} {s : Uart}
    (hroom : Machine.Along uartStep RxRoom {} acts)
    (hrace : Machine.Along uartStep NoRace {} acts)
    (hrun : Machine.run uartStep {} acts = some s) : UartInv s := by
  refine Machine.run_inv_of_along ?_ uartInv_init (hroom.and hrace) hrun
  intro u a t h hC hstep
  exact uartInv_step u a t h hC.1 hC.2 hstep

theorem UartInv.ringsOk {s : Uart} (h : UartInv s) (hidle : s.pc = .idle) : RingsOk s := by
  obtain ⟨hrx, htx⟩ := h.atIdle hidle
  exact ⟨hrx.ringOk, htx.ringOk⟩

/-- **Consistency, but for races on the counts.** In every run with never more
than 256 unread bytes in which no handler changes a count that the main line
has loaded, or a flush is about to clear, and not yet stored, both rings are
consistent whenever no function of the main line is in progress. -/
theorem rings_ok (acts : List UartAct) (s : Uart)
    (hroom : Machine.Along uartStep RxRoom {} acts)
    (hrace : Machine.Along uartStep NoRace {} acts)
    (hrun : Machine.run uartStep {} acts = some s) (hidle : s.pc = .idle) : RingsOk s :=
  (uartInv_run hroom hrace hrun).ringsOk hidle

/-! Two calls of `UartPutData` with a byte each. The first byte is transmitted
while the second call stands between the load and the store of
`pendingBytes++`. -/

def twoPuts : List UartAct :=
  .callPut [65] :: List.replicate 8 .next ++ .callPut [66] :: List.replicate 6 .next

def racingRun : List UartAct := twoPuts ++ .txIrq :: List.replicate 2 .next

theorem racingRun_result :
    (Machine.run uartStep {} racingRun).map
        (fun s => (s.pc, s.tx.buf.rdI, s.tx.buf.wrI, s.tx.buf.pendingBytes)) =
      some (.idle, 1, 2, 2) := by
  decide +kernel

theorem rxRoom_of_no_rxIrq {acts : List UartAct} (h : ∀ a ∈ acts, ∀ b, a ≠ .rxIrq b) :
    Machine.Along uartStep RxRoom {} acts := by
  apply Machine.along_of_mem
  intro a ha u b hb
  exact absurd hb (h a ha b)

/-- The transmitted byte is counted again: two bytes pending, one in the ring. -/
theorem count_lost : Machine.Along uartStep RxRoom {} racingRun ∧
    ∃ s, Machine.run uartStep {} racingRun = some s ∧ s.pc = .idle ∧ ¬ RingsOk s := by
  refine ⟨rxRoom_of_no_rxIrq ?_, ?_⟩
  · simp [racingRun, twoPuts]
  · obtain ⟨s, hrun, hs⟩ := Option.map_eq_some_iff.mp racingRun_result
    simp only [Prod.mk.injEq] at hs
    obtain ⟨hpc, hrd, hwr, hpending⟩ := hs
    refine ⟨s, hrun, hpc, ?_⟩
    rintro ⟨-, hindex, -⟩
    rw [hrd, hwr, hpending] at hindex
    exact absurd hindex (by decide)

/-- The same two calls, and the byte is transmitted after them. -/
def doneRun : List UartAct := twoPuts ++ List.replicate 2 .next

theorem doneRun_result :
    (Machine.run uartStep {} doneRun).map (fun s => (s.pc, s.tx.txbl)) = some (.idle, true) := by
  decide +kernel

theorem doneRun_no_irq : ∀ a ∈ doneRun, a ≠ .txIrq ∧ ∀ b, a ≠ .rxIrq b := by
  simp [doneRun, twoPuts]

theorem doneRun_rings_ok :
    ∃ s, Machine.run uartStep {} (doneRun ++ [.txIrq]) = some s ∧ RingsOk s := by
  obtain ⟨s, hrun, hs⟩ := Option.map_eq_some_iff.mp doneRun_result
  simp only [Prod.mk.injEq] at hs
  obtain ⟨hpc, htxbl⟩ := hs
  have hlast : Machine.run uartStep {} (doneRun ++ [.txIrq]) =
      some { s with tx := usart0TxIrqHandler s.tx } := by
    apply Machine.run_snoc_eq_some.mpr
    exact ⟨s, hrun, by simp [uartStep, htxbl]⟩
  refine ⟨_, hlast, rings_ok _ _ (rxRoom_of_no_rxIrq ?_) ?_ hlast hpc⟩
  · intro a ha b
    rcases List.mem_append.mp ha with ha | ha
    · exact (doneRun_no_irq a ha).2 b
    · rw [List.mem_singleton.mp ha]
      simp
  · refine Machine.along_snoc.mpr ⟨Machine.along_of_mem ?_, ?_⟩
    · intro a ha u
      obtain ⟨htx, hrx⟩ := doneRun_no_irq a ha
      exact ⟨fun b hb => absurd hb (hrx b), fun hb => absurd hb htx⟩
    · intro u hu
      obtain rfl : s = u := Option.some.inj (hrun.symm.trans hu)
      refine ⟨fun b ha => UartAct.noConfusion ha, fun _ _ => ?_⟩
      rw [hpc]
      rfl

end SmartDoorLock
