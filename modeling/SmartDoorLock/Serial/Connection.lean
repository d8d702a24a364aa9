import SmartDoorLock.Serial.Stream

/-!
# The connection on the UART

A step of `CellularRead` or `CellularWrite` is at most one step of the UART, so
a run of the two is a run of the UART with the same interrupts, and the rings
are consistent under them as they are under any calls. The stream starts where
the UART stands whenever no function is in progress.
-/

namespace SmartDoorLock

/-- No handler changes a count that the main line is about to store. -/
def LinkNoRace (s : Link) (a : LinkAct) : Prop :=
  (∀ b, a = .rxIrq b → s.uart.pc.rxExposed = false) ∧
    (a = .txIrq → 0 < s.uart.tx.buf.pendingBytes → s.uart.pc.txExposed = false)

/-- The caller goes on by itself, or by a call. -/
theorem callerNext_uart {s t : Link} (h : callerNext s = some t) :
    t.uart = s.uart ∨ (∃ len timeout, uartStep s.uart (.callGet len timeout) = some t.uart) ∨
      ∃ data, uartStep s.uart (.callPut data) = some t.uart := by
  unfold callerNext at h
  split at h
  · cases h
  · split at h
    · simp only at h
      split at h
      · cases h
        exact Or.inl rfl
      · obtain ⟨uart, huart, rfl⟩ := Option.map_eq_some_iff.mp h
        exact Or.inr (Or.inl ⟨_, _, huart⟩)
    · cases h
      exact Or.inl rfl
  · split at h <;> cases h <;> exact Or.inl rfl
  · cases h
    exact Or.inl rfl
  · obtain ⟨uart, huart, rfl⟩ := Option.map_eq_some_iff.mp h
    exact Or.inr (Or.inr ⟨_, huart⟩)
  · cases h
    split <;> exact Or.inl rfl

/-- **A step of the link is at most one step of the UART**, and an interrupt of
the one is the same interrupt of the other. -/
theorem linkStep_uart {s t : Link} {a : LinkAct} (h : linkStep s a = some t) :
    t.uart = s.uart ∨ ∃ b, uartStep s.uart b = some t.uart ∧
      (∀ rxData, b = .rxIrq rxData → a = .rxIrq rxData) ∧ (b = .txIrq → a = .txIrq) := by
  cases a with
  | elapse d =>
      simp only [linkStep] at h
      obtain ⟨uart, huart, rfl⟩ := Option.map_eq_some_iff.mp h
      exact Or.inr ⟨.elapse d, huart, by simp, by simp⟩
  | rxIrq rxData =>
      simp only [linkStep] at h
      obtain ⟨uart, huart, rfl⟩ := Option.map_eq_some_iff.mp h
      exact Or.inr ⟨.rxIrq rxData, huart, by simp, by simp⟩
  | txIrq =>
      simp only [linkStep] at h
      obtain ⟨uart, huart, rfl⟩ := Option.map_eq_some_iff.mp h
      exact Or.inr ⟨.txIrq, huart, by simp, by simp⟩
  | cellularRead maxLen timeout =>
      simp only [linkStep] at h
      split at h <;> cases h
      exact Or.inl rfl
  | cellularWrite payload =>
      simp only [linkStep] at h
      split at h
      · obtain ⟨uart, huart, rfl⟩ := Option.map_eq_some_iff.mp h
        exact Or.inr ⟨.callFlush, huart, by simp, by simp⟩
      · cases h
  | next =>
      simp only [linkStep] at h
      split at h
      · rcases callerNext_uart h with hsame | ⟨len, timeout, hget⟩ | ⟨data, hput⟩
        · exact Or.inl hsame
        · exact Or.inr ⟨.callGet len timeout, hget, by simp, by simp⟩
        · exact Or.inr ⟨.callPut data, hput, by simp, by simp⟩
      · obtain ⟨uart, huart, rfl⟩ := Option.map_eq_some_iff.mp h
        exact Or.inr ⟨.next, huart, by simp, by simp⟩

/-- A run of reads and writes is a run of the UART; where the one has room for
every byte and no race, so has the other. -/
theorem link_runs_uart {acts : List LinkAct} {s : Link}
    (hroom : Machine.Along linkStep LinkRoom {} acts)
    (hrace : Machine.Along linkStep LinkNoRace {} acts)
    (hrun : Machine.run linkStep {} acts = some s) :
    ∃ bs, Machine.run uartStep {} bs = some s.uart ∧
      Machine.Along uartStep RxRoom {} bs ∧ Machine.Along uartStep NoRace {} bs := by
  have hsim : ∃ bs u, Machine.run uartStep {} bs = some u ∧
      Machine.Along uartStep (fun u b => RxRoom u b ∧ NoRace u b) {} bs ∧ s.uart = u := by
    refine Machine.run_sim (R := fun l u => l.uart = u) ?_ rfl (hroom.and hrace) hrun
    rintro l a t u rfl ⟨hroom, hrx, htx⟩ hstep
    rcases linkStep_uart hstep with hsame | ⟨b, hb, hbrx, hbtx⟩
    · exact Or.inl hsame
    · refine Or.inr ⟨b, t.uart, hb, ⟨?_, ?_, ?_⟩, rfl⟩
      · exact fun rxData h => hroom rxData (hbrx rxData h)
      · exact fun rxData h => hrx rxData (hbrx rxData h)
      · exact fun h => htx (hbtx h)
  obtain ⟨bs, u, hbs, hC, rfl⟩ := hsim
  exact ⟨bs, hbs, hC.mono fun _ _ h => h.1, hC.mono fun _ _ h => h.2⟩

/-- **The rings under reads and writes.** They are consistent whenever no
function of the UART is in progress, between two calls or within one. -/
theorem link_rings_ok {acts : List LinkAct} {s : Link}
    (hroom : Machine.Along linkStep LinkRoom {} acts)
    (hrace : Machine.Along linkStep LinkNoRace {} acts)
    (hrun : Machine.run linkStep {} acts = some s) (hidle : s.uart.pc = .idle) :
    RingsOk s.uart := by
  obtain ⟨bs, hbs, hbroom, hbrace⟩ := link_runs_uart hroom hrace hrun
  exact (uartInv_run hbroom hbrace hbs).ringsOk hidle

/-- **A connection can be established after any calls**, as the functions of
`cellular.c` make them before, if no race has upset the receiving ring. -/
theorem established_of_run {acts : List UartAct} {s : Uart}
    (hroom : Machine.Along uartStep RxRoom {} acts)
    (hrace : Machine.Along uartStep NoRace {} acts)
    (hrun : Machine.run uartStep {} acts = some s) (hidle : s.pc = .idle) :
    Established { uart := s } where
  pc := rfl
  uart_pc := hidle
  returned := rfl
  ring := ((uartInv_run hroom hrace hrun).atIdle hidle).1

end SmartDoorLock
