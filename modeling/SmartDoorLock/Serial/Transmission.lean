import SmartDoorLock.Serial.RingConsistency
import SmartDoorLock.Serial.SerialIo

/-!
# One transmission

A run of a single `SerialSend`, from its call on an empty ring to its return,
with the transmit handler between any two accesses. The message is always the
bytes stored, those that `UartPutData` still has to store and those that
`SerialSend` has not passed on yet; the ring is in order by the invariant of
the rings; and outside the copying loop a pending byte keeps `TXBL` enabled,
since the handler disables it at zero only and every return of `UartPutData`
enables it. Both busy-waits lie outside that loop.
-/

namespace SmartDoorLock

/-! ## The property -/

/-- `SerialSend` is called with an empty `txBuf`, whose two indices are `i`.
What is stored and transmitted is logged from here on. -/
structure SendCalled (i : ℕ) (message : List UInt8) (s : Link) : Prop where
  pc : s.pc = .sendLoop message
  uart_pc : s.uart.pc = .idle
  rdI_eq : s.uart.tx.buf.rdI = i
  wrI_eq : s.uart.tx.buf.wrI = i
  index_lt : i < CIRCULAR_BUF_SIZE
  empty : s.uart.tx.buf.pendingBytes = 0
  queued : s.uart.tx.queued = []
  sent : s.uart.tx.sent = []

/-- `SerialSend` has not returned before the step, and the handler does not run
between the load and the store of `pendingBytes++`. -/
def InSend (s : Link) (a : LinkAct) : Prop :=
  s.pc ≠ .idle ∧ (a = .txIrq → s.uart.pc.txExposed = false)

/-- Every byte stored and not transmitted is in its slot, counted from `i`. -/
def UnsentIntact (i : ℕ) (tx : TxSide) : Prop :=
  ∀ j (h : j < tx.queued.length), tx.sent.length ≤ j →
    tx.buf.data ((i + j) % CIRCULAR_BUF_SIZE) = tx.queued[j]

/-- The main line is in one of the two busy-waits, and its condition is true. -/
def Waiting (s : Link) : Prop :=
  (∃ rest, s.uart.pc = .put (.whileFull rest) ∧
      s.uart.tx.buf.pendingBytes + rest.length > CIRCULAR_BUF_SIZE) ∨
    (s.pc = .sendDrain ∧ s.uart.tx.buf.pendingBytes ≠ 0)

/-! ## A ring that does not start at zero -/

/-- The same ring, with `base` as the bytes that went through it before. -/
def TxSide.after (base : List UInt8) (tx : TxSide) : TxSide :=
  { tx with queued := base ++ tx.queued, sent := base ++ tx.sent }

theorem putNext_after (base : List UInt8) (tx : TxSide) (p : PutPc) :
    putNext (tx.after base) p = ((putNext tx p).1.after base, (putNext tx p).2) := by
  cases p with
  | head rest => cases rest <;> rfl
  | dataStore b rest w => simp [putNext, TxSide.after]
  | _ => rfl

theorem transmit_after (base : List UInt8) (tx : TxSide) :
    transmit (tx.after base) = (transmit tx).after base := by
  by_cases hpos : tx.buf.pendingBytes > 0
  · simp [transmit, TxSide.after, hpos]
  · have hpos' : ¬ (tx.after base).buf.pendingBytes > 0 := hpos
    rw [transmit, if_neg hpos', transmit, if_neg hpos]

theorem usart0TxIrqHandler_after (base : List UInt8) (tx : TxSide) :
    usart0TxIrqHandler (tx.after base) = (usart0TxIrqHandler tx).after base := by
  simp only [usart0TxIrqHandler, transmit_after]
  by_cases hzero : (transmit tx).buf.pendingBytes = 0
  · rw [if_pos hzero]
    exact if_pos hzero
  · rw [if_neg hzero]
    exact if_neg hzero

/-! ## What is stored, and when the interrupt is enabled -/

/-- What of the present `UartPutData` is not stored yet. -/
def PutPc.rest : PutPc → List UInt8
  | .ifFull rest => rest
  | .whileFull rest => rest
  | .head rest => rest
  | .dataStore b rest _ => b :: rest
  | .wrLoad rest => rest
  | .wrStore rest _ => rest
  | .pendLoad rest => rest
  | .pendStore rest _ => rest

/-- Past the wait of `UartPutData`, up to its `USART_IntEnable`. -/
def PutPc.copying : PutPc → Bool
  | .ifFull _ => false
  | .whileFull _ => false
  | _ => true

def UartPc.rest : UartPc → List UInt8
  | .put p => p.rest
  | _ => []

def UartPc.copying : UartPc → Bool
  | .put p => p.copying
  | _ => false

/-- Outside the copying loop a pending byte has its interrupt enabled. -/
def Enabled (tx : TxSide) (pc : UartPc) : Prop :=
  pc.copying = false → 0 < tx.buf.pendingBytes → tx.txbl = true

/-- An access of `UartPutData` moves at most one byte from the data to the log. -/
theorem putNext_queued (tx : TxSide) (p : PutPc) :
    (putNext tx p).1.queued ++ (putNext tx p).2.elim [] PutPc.rest = tx.queued ++ p.rest := by
  cases p with
  | ifFull rest =>
      simp only [putNext, Option.elim_some]
      split <;> rfl
  | whileFull rest =>
      simp only [putNext, Option.elim_some]
      split <;> rfl
  | head rest =>
      cases rest with
      | nil => rfl
      | cons b rest => rfl
  | dataStore b rest w => simp [putNext, PutPc.rest]
  | _ => rfl

theorem putNext_rest (tx : TxSide) (p : PutPc) :
    ((putNext tx p).2.elim [] PutPc.rest).length ≤ p.rest.length := by
  have hlog : tx.queued.length ≤ (putNext tx p).1.queued.length := by
    cases p with
    | head rest => cases rest <;> exact le_rfl
    | dataStore b rest w => simp [putNext]
    | _ => exact le_rfl
  have hqueued := congrArg List.length (putNext_queued tx p)
  rw [List.length_append, List.length_append] at hqueued
  omega

/-- The wait leaves the count and the interrupt alone, and the return enables it. -/
theorem putNext_enabled {tx : TxSide} {p : PutPc} (h : Enabled tx (.put p)) :
    Enabled (putNext tx p).1 ((putNext tx p).2.elim .idle .put) := by
  cases p with
  | ifFull rest => exact fun _ => h rfl
  | whileFull rest => exact fun _ => h rfl
  | head rest =>
      cases rest with
      | nil => exact fun _ _ => rfl
      | cons b rest => exact fun hcopying => Bool.noConfusion hcopying
  | _ => exact fun hcopying => Bool.noConfusion hcopying

/-- The handler disables its interrupt with nothing pending, and only then. -/
theorem usart0TxIrqHandler_txbl {tx : TxSide} (h : tx.txbl = true)
    (hpos : 0 < (usart0TxIrqHandler tx).buf.pendingBytes) : (usart0TxIrqHandler tx).txbl = true := by
  have hkept : (transmit tx).txbl = tx.txbl := by
    unfold transmit
    split <;> rfl
  unfold usart0TxIrqHandler at hpos ⊢
  simp only at hpos ⊢
  split
  · rename_i hzero
    rw [if_pos hzero] at hpos
    exact absurd hzero (Nat.ne_of_gt hpos)
  · exact hkept.trans h

theorem usart0TxIrqHandler_queued (tx : TxSide) : (usart0TxIrqHandler tx).queued = tx.queued := by
  unfold usart0TxIrqHandler transmit
  simp only
  split <;> split <;> rfl

/-- With a byte pending the handler transmits one. -/
theorem usart0TxIrqHandler_sent {tx : TxSide} (hpos : 0 < tx.buf.pendingBytes) :
    (usart0TxIrqHandler tx).sent.length = tx.sent.length + 1 := by
  unfold usart0TxIrqHandler transmit
  simp only [if_pos hpos]
  split <;> simp

/-! ## The invariant of a transmission -/

/-- What of the message `SerialSend` has not passed to `UartPutData` yet. -/
def LinkPc.rest : LinkPc → List UInt8
  | .sendLoop rest => rest
  | _ => []

/-- Where the functions of the UART may stand, by the point of `SerialSend`. -/
def SendAt (s : Link) : Prop :=
  match s.pc with
  | .sendLoop _ => s.uart.pc = .idle ∨ ∃ p, s.uart.pc = .put p
  | .sendDrain => s.uart.pc = .idle
  | .idle => s.uart.pc = .idle ∧ s.uart.tx.buf.pendingBytes = 0
  | _ => False

structure SendInv (base message : List UInt8) (s : Link) : Prop where
  ring : TxInv (s.uart.tx.after base) s.uart.pc
  enabled : Enabled s.uart.tx s.uart.pc
  fits : s.uart.pc.rest.length ≤ CIRCULAR_BUF_SIZE
  stored : s.uart.tx.queued ++ s.uart.pc.rest ++ s.pc.rest = message
  sendAt : SendAt s

theorem sendInv_called {i : ℕ} {message : List UInt8} {s : Link} (h : SendCalled i message s) :
    SendInv (List.replicate i 0) message s where
  ring := by
    have hlt : i < 256 := h.index_lt
    rw [h.uart_pc]
    have hlen : (List.replicate i (0 : UInt8) ++ []).length = i := by simp
    refine ⟨⟨?_, ?_, ?_⟩, ?_, ?_, ?_, ?_, ?_, ?_⟩
    all_goals simp only [TxSide.after, h.queued, h.sent, h.rdI_eq, h.wrI_eq, h.empty, hlen]
    · exact le_rfl
    · exact Nat.le_add_right _ _
    · intro j hj hle
      exact absurd hle (Nat.not_le.mpr hj)
    · exact List.prefix_rfl
    · exact (Nat.mod_eq_of_lt hlt).symm
    · exact hlt
    · rfl
    · rfl
    · exact Nat.le_add_right _ _
  enabled := by
    intro _ hpos
    rw [h.empty] at hpos
    exact absurd hpos (Nat.lt_irrefl 0)
  fits := by
    rw [h.uart_pc]
    exact Nat.zero_le _
  stored := by
    rw [h.queued, h.uart_pc, h.pc]
    rfl
  sendAt := by
    unfold SendAt
    rw [h.pc]
    exact Or.inl h.uart_pc

theorem uartNext_put {s : Uart} {p : PutPc} (hpc : s.pc = .put p) :
    uartNext s = some { s with
      tx := (putNext s.tx p).1, pc := (putNext s.tx p).2.elim .idle .put } := by
  unfold uartNext
  rw [hpc]
  cases hret : (putNext s.tx p).2 <;> simp [hret]

/-- An access of `UartPutData`. -/
theorem sendInv_put {base message : List UInt8} {s : Link} {p : PutPc} {uart : Uart}
    (h : SendInv base message s) (hpc : s.uart.pc = .put p) (hnext : uartNext s.uart = some uart) :
    SendInv base message { s with uart := uart } := by
  rw [uartNext_put hpc, Option.some.injEq] at hnext
  subst hnext
  have hring := h.ring
  have henabled := h.enabled
  have hfits := h.fits
  have hstored := h.stored
  have hat := h.sendAt
  rw [hpc] at hring henabled hfits hstored
  have hput := putInv_putNext (show PutInv (s.uart.tx.after base) p from hring)
  have hqueued := putNext_queued s.uart.tx p
  rw [putNext_after] at hput
  have hrest : ((putNext s.uart.tx p).2.elim UartPc.idle .put).rest =
      (putNext s.uart.tx p).2.elim [] PutPc.rest := by
    cases hret : (putNext s.uart.tx p).2 <;> rfl
  refine ⟨?_, putNext_enabled henabled, ?_, ?_, ?_⟩
  · cases hret : (putNext s.uart.tx p).2 with
    | none =>
        rw [hret] at hput
        exact hput
    | some p' =>
        rw [hret] at hput
        exact hput
  · show ((putNext s.uart.tx p).2.elim UartPc.idle .put).rest.length ≤ _
    rw [hrest]
    exact (putNext_rest _ p).trans hfits
  · rw [← hstored]
    refine congrArg (· ++ s.pc.rest) (Eq.trans ?_ hqueued)
    exact congrArg ((putNext s.uart.tx p).1.queued ++ ·) hrest
  · unfold SendAt at hat ⊢
    cases hcaller : s.pc with
    | sendLoop rest =>
        cases hret : (putNext s.uart.tx p).2 with
        | none => exact Or.inl rfl
        | some p' => exact Or.inr ⟨p', rfl⟩
    | sendDrain => simp [hcaller, hpc] at hat
    | _ => simp [hcaller, hpc] at hat

/-- `SerialSend` goes on while the UART stays as it is. -/
theorem SendInv.goOn {base message : List UInt8} {s : Link} (h : SendInv base message s)
    {pc : LinkPc} (hrest : pc.rest = s.pc.rest) (hat : SendAt { s with pc := pc }) :
    SendInv base message { s with pc := pc } where
  ring := h.ring
  enabled := h.enabled
  fits := h.fits
  stored := by
    show s.uart.tx.queued ++ s.uart.pc.rest ++ pc.rest = message
    rw [hrest]
    exact h.stored
  sendAt := hat

/-- `SerialSend` goes on: the next part of the message, the final wait or the
return. -/
theorem sendInv_caller {base message : List UInt8} {s t : Link} (h : SendInv base message s)
    (hidle : s.uart.pc = .idle) (hpc : s.pc ≠ .idle) (hnext : callerNext s = some t) :
    SendInv base message t := by
  have hat := h.sendAt
  unfold SendAt at hat
  unfold callerNext at hnext
  cases hcaller : s.pc with
  | idle => exact absurd hcaller hpc
  | recvLoop c buf => simp [hcaller] at hat
  | recvGot c buf => simp [hcaller] at hat
  | sendLoop rest =>
      rw [hcaller] at hnext
      cases rest with
      | nil =>
          cases hnext
          exact h.goOn (by rw [hcaller]; rfl) hidle
      | cons b rest =>
          obtain ⟨hring, henabled, -, hstored, -⟩ := h
          rw [hidle] at hring henabled hstored
          rw [hcaller] at hstored
          simp only [uartStep, if_pos hidle, if_neg (part_fits (b :: rest)), Option.map_some,
            Option.some.injEq] at hnext
          subst hnext
          refine ⟨hring, henabled, Nat.not_lt.mp (part_fits (b :: rest)), ?_, Or.inr ⟨_, rfl⟩⟩
          -- the part taken and the part left are what was left before
          show s.uart.tx.queued ++ (b :: rest).take CIRCULAR_BUF_SIZE ++
            (b :: rest).drop CIRCULAR_BUF_SIZE = message
          rw [List.append_assoc, List.take_append_drop, ← hstored]
          simp [UartPc.rest, LinkPc.rest]
  | sendDrain =>
      rw [hcaller] at hnext
      simp only [Option.some.injEq] at hnext
      subst hnext
      split
      · rename_i hzero
        exact h.goOn (by rw [hcaller]; rfl) ⟨hidle, hzero⟩
      · exact h

/-- The transmit handler, outside the update of the count. -/
theorem sendInv_txIrq {base message : List UInt8} {s : Link} (h : SendInv base message s)
    (htxbl : s.uart.tx.txbl = true) (hexposed : s.uart.pc.txExposed = false) (hpc : s.pc ≠ .idle) :
    SendInv base message
      { s with uart := { s.uart with tx := usart0TxIrqHandler s.uart.tx } } where
  ring := by
    have hring := txInv_txIrq h.ring (fun _ => hexposed)
    rw [usart0TxIrqHandler_after] at hring
    exact hring
  enabled := fun _ hpos => usart0TxIrqHandler_txbl htxbl hpos
  fits := h.fits
  stored := by
    show (usart0TxIrqHandler s.uart.tx).queued ++ s.uart.pc.rest ++ s.pc.rest = message
    rw [usart0TxIrqHandler_queued]
    exact h.stored
  sendAt := by
    have hat := h.sendAt
    unfold SendAt at hat ⊢
    cases hcaller : s.pc with
    | idle => exact absurd hcaller hpc
    | _ =>
        rw [hcaller] at hat
        exact hat

theorem sendInv_step (base message : List UInt8) (s : Link) (a : LinkAct) (t : Link)
    (h : SendInv base message s) (hin : InSend s a) (hstep : linkStep s a = some t) :
    SendInv base message t := by
  cases a with
  | elapse d =>
      cases hstep
      exact ⟨h.ring, h.enabled, h.fits, h.stored, h.sendAt⟩
  | rxIrq b =>
      cases hstep
      exact ⟨h.ring, h.enabled, h.fits, h.stored, h.sendAt⟩
  | txIrq =>
      simp only [linkStep, uartStep] at hstep
      split at hstep <;> cases hstep
      rename_i htxbl
      exact sendInv_txIrq h htxbl (hin.2 rfl) hin.1
  | cellularRead maxLen timeout => simp [linkStep, hin.1] at hstep
  | cellularWrite payload => simp [linkStep, hin.1] at hstep
  | next =>
      simp only [linkStep] at hstep
      split at hstep
      · rename_i hidle
        exact sendInv_caller h hidle hin.1 hstep
      · rename_i hidle
        obtain ⟨uart, huart, rfl⟩ := Option.map_eq_some_iff.mp hstep
        have hat := h.sendAt
        have hput : ∃ p, s.uart.pc = .put p := by
          unfold SendAt at hat
          split at hat
          · exact hat.resolve_left hidle
          · exact absurd hat hidle
          · exact absurd hat.1 hidle
          · exact hat.elim
        obtain ⟨p, hp⟩ := hput
        exact sendInv_put h hp huart

/-! ## What the invariant says -/

theorem txInv_pending_le {tx : TxSide} {pc : UartPc} (h : TxInv tx pc) :
    tx.buf.pendingBytes ≤ CIRCULAR_BUF_SIZE ∧
      Ring.Holds 256 tx.buf.data tx.queued tx.sent.length := by
  have hat : ∃ wrLag pendLag room, TxAt tx wrLag pendLag room := by
    cases pc with
    | put p =>
        cases p with
        | dataStore b rest w => exact ⟨_, _, _, h.1⟩
        | wrStore rest w => exact ⟨_, _, _, h.1⟩
        | pendStore rest p => exact ⟨_, _, _, h.1⟩
        | _ => exact ⟨_, _, _, h⟩
    | _ => exact ⟨_, _, _, h⟩
  obtain ⟨wrLag, pendLag, room, hat⟩ := hat
  have hpending := hat.pending_eq
  have hroom := hat.room_le
  refine ⟨?_, hat.holds⟩
  show tx.buf.pendingBytes ≤ 256
  omega

/-- After the return everything is transmitted. -/
theorem SendInv.sent_eq {base message : List UInt8} {s : Link} (h : SendInv base message s)
    (hidle : s.pc = .idle) : s.uart.tx.sent = message := by
  obtain ⟨hring, -, -, hstored, hat⟩ := h
  unfold SendAt at hat
  rw [hidle] at hat hstored
  obtain ⟨huart, hzero⟩ := hat
  rw [huart] at hring hstored
  have hqueued : s.uart.tx.queued = message := by
    simpa [UartPc.rest, LinkPc.rest] using hstored
  have htx : TxAt (s.uart.tx.after base) 0 0 0 := hring
  have hpending : (base ++ s.uart.tx.sent).length + s.uart.tx.buf.pendingBytes =
      (base ++ s.uart.tx.queued).length := htx.pending_eq
  rw [hzero] at hpending
  have hall : base ++ s.uart.tx.sent = base ++ s.uart.tx.queued :=
    htx.sent_isPrefix.eq_of_length hpending
  exact (List.append_cancel_left hall).trans hqueued

theorem SendInv.unsent_intact {i : ℕ} {message : List UInt8} {s : Link}
    (h : SendInv (List.replicate i 0) message s) : UnsentIntact i s.uart.tx := by
  have hholds := (txInv_pending_le h.ring).2
  intro j hj hle
  have hlen : (s.uart.tx.after (List.replicate i 0)).queued.length =
      i + s.uart.tx.queued.length := by
    simp [TxSide.after]
  have hcell := hholds.cell (i + j) (by omega) (by simp [TxSide.after, hle])
  refine hcell.trans ?_
  simp [TxSide.after]

/-- A wait whose condition is true has a byte pending, so the handler that makes
the condition false is enabled. -/
theorem SendInv.waiting_enabled {base message : List UInt8} {s : Link}
    (h : SendInv base message s) (hwait : Waiting s) :
    s.uart.tx.txbl = true ∧ 0 < s.uart.tx.buf.pendingBytes := by
  rcases hwait with ⟨rest, hpc, hfull⟩ | ⟨hpc, hpending⟩
  · have henabled := h.enabled
    have hfits := h.fits
    rw [hpc] at henabled hfits
    have hle : rest.length ≤ CIRCULAR_BUF_SIZE := hfits
    have hpos : 0 < s.uart.tx.buf.pendingBytes := by omega
    exact ⟨henabled rfl hpos, hpos⟩
  · have henabled := h.enabled
    have hat := h.sendAt
    unfold SendAt at hat
    rw [hpc] at hat
    have hidle : s.uart.pc = .idle := hat
    rw [hidle] at henabled
    have hpos : 0 < s.uart.tx.buf.pendingBytes := Nat.pos_of_ne_zero hpending
    exact ⟨henabled rfl hpos, hpos⟩

theorem txIrq_sends {s : Link} (htxbl : s.uart.tx.txbl = true)
    (hpos : 0 < s.uart.tx.buf.pendingBytes) :
    ∃ t, linkStep s .txIrq = some t ∧
      t.uart.tx.sent.length = s.uart.tx.sent.length + 1 := by
  refine ⟨{ s with uart := { s.uart with tx := usart0TxIrqHandler s.uart.tx } }, ?_,
    usart0TxIrqHandler_sent hpos⟩
  simp [linkStep, uartStep, htxbl]

/-- **A transmission is exact and does not wedge.** In every run of a
`SerialSend` that is called with an empty ring, whatever its indices and the
size of the message, with the transmit handler between any two accesses except
inside the update of the count: what was transmitted at the return is the
message; never more than 256 bytes are pending, and no byte that waits to be
transmitted is overwritten; and while either busy-wait has to go on, `TXBL` is
enabled and its handler transmits a byte. -/
theorem transmission_exact (i : ℕ) (message : List UInt8) (start : Link)
    (hstart : SendCalled i message start) (acts : List LinkAct) (s : Link)
    (hin : Machine.Along linkStep InSend start acts)
    (hrun : Machine.run linkStep start acts = some s) :
    (s.pc = .idle → s.uart.tx.sent = message) ∧
      s.uart.tx.buf.pendingBytes ≤ CIRCULAR_BUF_SIZE ∧ UnsentIntact i s.uart.tx ∧
      (Waiting s → s.uart.tx.txbl = true ∧ ∃ t, linkStep s .txIrq = some t ∧
        t.uart.tx.sent.length = s.uart.tx.sent.length + 1) := by
  have hinv : SendInv (List.replicate i 0) message s :=
    Machine.run_inv_of_along (sendInv_step (List.replicate i 0) message)
      (sendInv_called hstart) hin hrun
  refine ⟨hinv.sent_eq, (txInv_pending_le hinv.ring).1, hinv.unsent_intact, ?_⟩
  intro hwait
  obtain ⟨htxbl, hpos⟩ := hinv.waiting_enabled hwait
  exact ⟨htxbl, txIrq_sends htxbl hpos⟩

/-! Two bytes go out from the last slot of the ring; the final wait goes round
once before the first of them is transmitted. -/

/-- An empty ring at its last slot, and two bytes to be sent. -/
def lastSlot : Link :=
  { uart := { tx := { buf := { rdI := 255, wrI := 255 } } }, pc := .sendLoop [79, 75] }

def twoBytesRun : List LinkAct :=
  List.replicate 17 .next ++ [.txIrq, .next, .txIrq, .next]

theorem lastSlot_called : SendCalled 255 [79, 75] lastSlot where
  pc := rfl
  uart_pc := rfl
  rdI_eq := rfl
  wrI_eq := rfl
  index_lt := by decide
  empty := rfl
  queued := rfl
  sent := rfl

instance (s : Link) (a : LinkAct) : Decidable (InSend s a) :=
  inferInstanceAs (Decidable (_ ∧ _))

theorem twoBytesRun_sent :
    ∃ s, Machine.run linkStep lastSlot twoBytesRun = some s ∧ s.uart.tx.sent = [79, 75] := by
  have hresult : (Machine.run linkStep lastSlot twoBytesRun).map (fun s => s.pc) =
      some .idle := by
    decide +kernel
  obtain ⟨s, hrun, hidle⟩ := Option.map_eq_some_iff.mp hresult
  have hin : Machine.Along linkStep InSend lastSlot twoBytesRun := by decide +kernel
  have hexact := transmission_exact 255 [79, 75] lastSlot lastSlot_called twoBytesRun s hin hrun
  exact ⟨s, hrun, hexact.1 hidle⟩

end SmartDoorLock
