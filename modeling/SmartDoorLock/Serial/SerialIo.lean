import SmartDoorLock.Serial.Uart

/-!
# Reading and writing the established connection

`CellularRead` is `SerialRecv`, and `CellularWrite` is `SerialFlushInputBuff`
followed by `SerialSend`. Both functions of the serial driver loop over calls
of `UartGetData` and `UartPutData`, so a state is the state of the UART and the
point at which the caller goes on once the UART function in progress returns.

This is what runs on the serial line while `transparentMode` is 1: neither
function looks at the mode or changes it.
-/

namespace SmartDoorLock

open WrapClock

/-- The arguments of a `SerialRecv`, and its first reading of `cur_time`. -/
structure RecvCall where
  maxLen : ℕ
  timeout : UInt32
  start : UInt32
deriving DecidableEq, Repr

/-- Where the caller goes on. -/
inductive LinkPc where
  /-- no call is in progress -/
  | idle
  /-- at the head of the loop of `SerialRecv`; `buf` is filled so far -/
  | recvLoop (c : RecvCall) (buf : List UInt8)
  /-- after the `UartGetData` of the loop -/
  | recvGot (c : RecvCall) (buf : List UInt8)
  /-- at the head of the loop of `SerialSend`, with `rest` to be sent -/
  | sendLoop (rest : List UInt8)
  /-- in `while(txBuf.pendingBytes);` -/
  | sendDrain
deriving DecidableEq, Repr

structure Link where
  uart : Uart := {}
  pc : LinkPc := .idle
  /-- all bytes returned by calls of `CellularRead` -/
  returned : List UInt8 := []

inductive LinkAct where
  /-- `d` ms pass -/
  | elapse (d : ℕ)
  | rxIrq (rxData : UInt8)
  | txIrq
  | cellularRead (maxLen : ℕ) (timeout : UInt32)
  | cellularWrite (payload : List UInt8)
  /-- the main line goes on -/
  | next
deriving DecidableEq, Repr

/-- The caller goes on, while no function of the UART is in progress. -/
def callerNext (s : Link) : Option Link :=
  match s.pc with
  | .idle => none
  | .recvLoop c buf =>
      if buf.length < c.maxLen then
        let interval := stamp s.uart.now - c.start
        if interval ≥ c.timeout then
          some { s with pc := .idle, returned := s.returned ++ buf }
        else
          let readSize := min (c.maxLen - buf.length) CIRCULAR_BUF_SIZE
          (uartStep s.uart (.callGet readSize (c.timeout - interval))).map fun uart =>
            { s with uart := uart, pc := .recvGot c buf }
      else
        some { s with pc := .idle, returned := s.returned ++ buf }
  | .recvGot c buf =>
      match s.uart.got with
      | none => some { s with pc := .idle, returned := s.returned ++ buf }
      | some [] => some { s with pc := .idle, returned := s.returned ++ buf }
      | some (x :: xs) => some { s with pc := .recvLoop c (buf ++ x :: xs) }
  | .sendLoop [] => some { s with pc := .sendDrain }
  | .sendLoop (b :: rest) =>
      (uartStep s.uart (.callPut ((b :: rest).take CIRCULAR_BUF_SIZE))).map fun uart =>
        { s with uart := uart, pc := .sendLoop ((b :: rest).drop CIRCULAR_BUF_SIZE) }
  | .sendDrain => some (if s.uart.tx.buf.pendingBytes = 0 then { s with pc := .idle } else s)

def linkStep (s : Link) : LinkAct → Option Link
  | .elapse d => (uartStep s.uart (.elapse d)).map fun uart => { s with uart := uart }
  | .rxIrq rxData => (uartStep s.uart (.rxIrq rxData)).map fun uart => { s with uart := uart }
  | .txIrq => (uartStep s.uart .txIrq).map fun uart => { s with uart := uart }
  | .cellularRead maxLen timeout =>
      if s.pc = .idle then
        some { s with pc := .recvLoop ⟨maxLen, timeout, stamp s.uart.now⟩ [] }
      else none
  | .cellularWrite payload =>
      if s.pc = .idle then
        (uartStep s.uart .callFlush).map fun uart =>
          { s with uart := uart, pc := .sendLoop payload }
      else none
  | .next =>
      if s.uart.pc = .idle then callerNext s
      else (uartStep s.uart .next).map fun uart => { s with uart := uart }

/-! ## What has been copied out -/

/-- What the call of `UartGetData` in progress has copied. -/
def GetPc.out : GetPc → List UInt8
  | .head _ out => out
  | .dataLoad _ out _ => out
  | .rdLoad _ out => out
  | .rdStore _ out _ => out
  | .pendLoad _ out => out
  | .pendStore _ out _ => out
  | _ => []

/-- What `SerialRecv` has got from the calls of `UartGetData` before this one. -/
def LinkPc.buf : LinkPc → List UInt8
  | .recvLoop _ buf => buf
  | .recvGot _ buf => buf
  | _ => []

/-- What the present call of `UartGetData` has copied, or has returned. -/
def Link.copied (s : Link) : List UInt8 :=
  match s.pc, s.uart.pc with
  | .recvGot _ _, .get p => p.out
  | .recvGot _ _, _ => s.uart.got.getD []
  | _, _ => []

theorem copied_of_get {s : Link} {c : RecvCall} {buf : List UInt8} {p : GetPc}
    (hpc : s.pc = .recvGot c buf) (hget : s.uart.pc = .get p) : s.copied = p.out := by
  unfold Link.copied
  rw [hpc, hget]

/-- Outside `UartGetData` it is what was returned. -/
theorem copied_of_not_get {s : Link} (hget : ∀ p, s.uart.pc ≠ .get p) :
    s.copied = match s.pc with
      | .recvGot _ _ => s.uart.got.getD []
      | _ => [] := by
  unfold Link.copied
  cases s.pc <;> cases hpc : s.uart.pc <;> first | rfl | exact absurd hpc (hget _)

/-- All bytes copied out by calls of `CellularRead`, returned or not yet. -/
def Link.delivered (s : Link) : List UInt8 := s.returned ++ s.pc.buf ++ s.copied

/-- The callers and the UART functions they are in. -/
structure LinkWf (s : Link) : Prop where
  idle_uart : s.pc = .idle → s.uart.pc = .idle
  get_recv : ∀ p, s.uart.pc = .get p → ∃ c buf, s.pc = .recvGot c buf

/-! ## What one step does -/

/-- Points at which a function of the UART has touched nothing yet. -/
def UartPc.atStart : UartPc → Bool
  | .idle => true
  | .put (.ifFull _) => true
  | .get (.start _ _) => true
  | .flush .wrLoad => true
  | _ => false

/-- The receiving side, and what was copied out of it, are as before. -/
structure RxUntouched (s t : Link) : Prop where
  rx : t.uart.rx = s.uart.rx
  pc : t.uart.pc = s.uart.pc ∨ (s.uart.pc = .idle ∧ t.uart.pc.atStart = true)
  delivered : t.delivered = s.delivered

/-- A part of the message is never more than the ring can hold. -/
theorem part_fits (message : List UInt8) :
    ¬ (message.take CIRCULAR_BUF_SIZE).length > CIRCULAR_BUF_SIZE := by
  rw [List.length_take]
  exact Nat.not_lt.mpr (Nat.min_le_left _ _)

theorem callerNext_untouched {s t : Link} (hidle : s.uart.pc = .idle) (h : callerNext s = some t) :
    RxUntouched s t ∧ LinkWf t := by
  unfold callerNext at h
  cases hpc : s.pc with
  | idle =>
      rw [hpc] at h
      cases h
  | recvLoop c buf =>
      rw [hpc] at h
      simp only at h
      split at h
      · split at h
        · cases h
          exact ⟨⟨rfl, Or.inl rfl, by simp [Link.delivered, Link.copied, LinkPc.buf, hpc]⟩,
            ⟨fun _ => hidle, fun p hp => by simp [hidle] at hp⟩⟩
        · simp only [uartStep, if_pos hidle, Option.map_some, Option.some.injEq] at h
          subst h
          exact ⟨⟨rfl, Or.inr ⟨hidle, rfl⟩, by
              simp [Link.delivered, Link.copied, LinkPc.buf, GetPc.out, hpc]⟩,
            ⟨fun h => LinkPc.noConfusion h, fun p _ => ⟨c, buf, rfl⟩⟩⟩
      · cases h
        exact ⟨⟨rfl, Or.inl rfl, by simp [Link.delivered, Link.copied, LinkPc.buf, hpc]⟩,
          ⟨fun _ => hidle, fun p hp => by simp [hidle] at hp⟩⟩
  | recvGot c buf =>
      rw [hpc] at h
      simp only at h
      split at h <;> rename_i hgot <;> cases h
      all_goals
        exact ⟨⟨rfl, Or.inl rfl, by simp [Link.delivered, Link.copied, LinkPc.buf, hpc, hidle, hgot]⟩,
          ⟨fun _ => hidle, fun p hp => by simp [hidle] at hp⟩⟩
  | sendLoop rest =>
      rw [hpc] at h
      cases rest with
      | nil =>
          cases h
          exact ⟨⟨rfl, Or.inl rfl, by simp [Link.delivered, Link.copied, LinkPc.buf, hpc]⟩,
            ⟨fun _ => hidle, fun p hp => by simp [hidle] at hp⟩⟩
      | cons b rest =>
          simp only [uartStep, if_pos hidle, if_neg (part_fits (b :: rest)), Option.map_some,
            Option.some.injEq] at h
          subst h
          exact ⟨⟨rfl, Or.inr ⟨hidle, rfl⟩, by
              simp [Link.delivered, Link.copied, LinkPc.buf, hpc]⟩,
            ⟨fun h => LinkPc.noConfusion h, fun p hp => UartPc.noConfusion hp⟩⟩
  | sendDrain =>
      rw [hpc] at h
      simp only [Option.some.injEq] at h
      subst h
      split
      · exact ⟨⟨rfl, Or.inl rfl, by simp [Link.delivered, Link.copied, LinkPc.buf, hpc]⟩,
          ⟨fun _ => hidle, fun p hp => by simp [hidle] at hp⟩⟩
      · exact ⟨⟨rfl, Or.inl rfl, rfl⟩, ⟨fun _ => hidle, fun p hp => by simp [hidle] at hp⟩⟩

/-- **The steps of the link**, as the receiving side sees them: it is not
touched, or its handler runs, or a function of the UART makes an access. -/
theorem linkStep_cases {s t : Link} {a : LinkAct} (hwf : LinkWf s) (h : linkStep s a = some t) :
    ((∀ b, a ≠ .rxIrq b) ∧ (a = .next → s.uart.pc = .idle) ∧ RxUntouched s t ∧ LinkWf t) ∨
    (∃ b, a = .rxIrq b ∧
      t = { s with uart := { s.uart with rx := usart0RxIrqHandler s.uart.rx b } }) ∨
    (a = .next ∧ ∃ uart, uartNext s.uart = some uart ∧ t = { s with uart := uart }) := by
  have hsame : ∀ uart : Uart, uart.rx = s.uart.rx → uart.pc = s.uart.pc → uart.got = s.uart.got →
      RxUntouched s { s with uart := uart } ∧ LinkWf { s with uart := uart } := by
    intro uart hrx hpc hgot
    refine ⟨⟨hrx, Or.inl hpc, ?_⟩, ⟨?_, ?_⟩⟩
    · simp [Link.delivered, Link.copied, hpc, hgot]
    · exact fun hidle => hpc.trans (hwf.idle_uart hidle)
    · exact fun p hp => hwf.get_recv p (hpc.symm.trans hp)
  cases a with
  | elapse d =>
      cases h
      exact Or.inl ⟨by simp, by simp, hsame _ rfl rfl rfl⟩
  | rxIrq b =>
      cases h
      exact Or.inr (Or.inl ⟨b, rfl, rfl⟩)
  | txIrq =>
      simp only [linkStep, uartStep] at h
      split at h <;> cases h
      exact Or.inl ⟨by simp, by simp, hsame _ rfl rfl rfl⟩
  | cellularRead maxLen timeout =>
      simp only [linkStep] at h
      split at h <;> cases h
      rename_i hidle
      have huart := hwf.idle_uart hidle
      exact Or.inl ⟨by simp, by simp,
        ⟨rfl, Or.inl rfl, by simp [Link.delivered, Link.copied, LinkPc.buf, hidle]⟩,
        ⟨fun h => LinkPc.noConfusion h, fun p hp => by simp [huart] at hp⟩⟩
  | cellularWrite payload =>
      simp only [linkStep] at h
      split at h
      · rename_i hidle
        have huart := hwf.idle_uart hidle
        simp only [uartStep, if_pos huart, Option.map_some, Option.some.injEq] at h
        subst h
        exact Or.inl ⟨by simp, by simp,
          ⟨rfl, Or.inr ⟨huart, rfl⟩, by simp [Link.delivered, Link.copied, LinkPc.buf, hidle]⟩,
          ⟨fun h => LinkPc.noConfusion h, fun p hp => UartPc.noConfusion hp⟩⟩
      · cases h
  | next =>
      simp only [linkStep] at h
      split at h
      · rename_i hidle
        exact Or.inl ⟨by simp, fun _ => hidle, callerNext_untouched hidle h⟩
      · obtain ⟨uart, huart, rfl⟩ := Option.map_eq_some_iff.mp h
        exact Or.inr (Or.inr ⟨rfl, uart, huart, rfl⟩)

end SmartDoorLock
