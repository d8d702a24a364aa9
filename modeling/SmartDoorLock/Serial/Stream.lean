import SmartDoorLock.Serial.RingConsistency
import SmartDoorLock.Serial.SerialIo

/-!
# The stream of received bytes while connected

Every byte that arrives is either returned by a `CellularRead` or still
pending: this is a balance of three counts, and a step of the main line either
keeps it or spoils it for good. `CellularWrite` spoils it, because it flushes
the ring before it sends: whatever was not read before the flush, or arrives
while the flush is under way, is in no read. The other way to lose a byte is
the race on the count inside `UartGetData`.
-/

namespace SmartDoorLock

open WrapClock

/-! ## The property and the condition -/

/-- The bytes pending in `rxBuf`, the oldest first. -/
def CircularBuf.pending (buf : CircularBuf) : List UInt8 :=
  Ring.window 256 buf.data buf.rdI buf.pendingBytes

/-- A connection has just been established: no call is in progress, nothing
was returned yet, and the ring is in order. -/
structure Established (s : Link) : Prop where
  pc : s.pc = .idle
  uart_pc : s.uart.pc = .idle
  returned : s.returned = []
  ring : RxAt s.uart.rx 0 0

/-- What the reads returned and what is pending is what was received after the
first `base` bytes. -/
def StreamIntact (base : ℕ) (s : Link) : Prop :=
  s.returned ++ s.uart.rx.buf.pending = s.uart.rx.received.drop base

/-- There is room for a byte that arrives. -/
def LinkRoom (s : Link) (a : LinkAct) : Prop :=
  ∀ b, a = .rxIrq b → s.uart.rx.received.length < s.uart.rx.taken + 256

/-- A flush starts with an empty ring and no byte arrives in it before it has
stored the count, nor between the load and the store of the count by
`UartGetData`. -/
def NothingDropped (s : Link) (a : LinkAct) : Prop :=
  (∀ b, a = .rxIrq b → s.uart.pc.rxExposed = false) ∧
    (a = .next → s.uart.pc = .flush .wrLoad → s.uart.rx.buf.pendingBytes = 0)

/-! ## The balance of the counts -/

/-- A byte is copied out and not yet counted down. -/
def UartPc.lag : UartPc → ℕ
  | .get (.rdLoad _ _) => 1
  | .get (.rdStore _ _ _) => 1
  | .get (.pendLoad _ _) => 1
  | .get (.pendStore _ _ _) => 1
  | _ => 0

/-- The bytes that `UartGetData` is to count down. -/
def UartPc.due : UartPc → ℕ
  | .get (.head n _) => n
  | .get (.dataLoad n _ _) => n + 1
  | .get (.rdLoad n _) => n + 1
  | .get (.rdStore n _ _) => n + 1
  | .get (.pendLoad n _) => n + 1
  | .get (.pendStore n _ _) => n + 1
  | _ => 0

/-- The count, as far as it will count: a value already loaded will be stored
over it, and a flush will store zero. -/
def effPending (rx : RxSide) : UartPc → ℕ
  | .get (.pendStore _ _ p) => p
  | .flush (.rdStore _) => 0
  | .flush .pendStore => 0
  | _ => rx.buf.pendingBytes

theorem atStart_counts {pc : UartPc} (h : pc.atStart = true) (rx : RxSide) :
    pc.lag = 0 ∧ pc.due = 0 ∧ effPending rx pc = rx.buf.pendingBytes := by
  cases pc with
  | idle => exact ⟨rfl, rfl, rfl⟩
  | put p => exact ⟨rfl, rfl, rfl⟩
  | get p => cases p <;> first | exact ⟨rfl, rfl, rfl⟩ | exact Bool.noConfusion h
  | flush p => cases p <;> first | exact ⟨rfl, rfl, rfl⟩ | exact Bool.noConfusion h

/-- One access of `UartGetData` keeps the balance between the bytes taken and
the count, and copies what it takes. -/
theorem getNext_counts {rx : RxSide} {p p' : GetPc} {curTime : UInt32}
    (hdue : (UartPc.get p).due ≤ effPending rx (.get p))
    (hret : (getNext curTime rx p).2 = .inl p') :
    (UartPc.get p').due ≤ effPending (getNext curTime rx p).1 (.get p') ∧
    (getNext curTime rx p).1.taken + effPending (getNext curTime rx p).1 (.get p') +
        (UartPc.get p).lag =
      rx.taken + effPending rx (.get p) + (UartPc.get p').lag ∧
    p'.out.length + rx.taken = p.out.length + (getNext curTime rx p).1.taken := by
  cases p with
  | start len timeout =>
      cases hret
      exact ⟨Nat.zero_le _, rfl, rfl⟩
  | ifEmpty len timeout waitStart =>
      simp only [getNext, Sum.inl.injEq] at hret
      subst hret
      split <;> exact ⟨Nat.zero_le _, rfl, rfl⟩
  | whileEmpty len timeout waitStart =>
      simp only [getNext, Sum.inl.injEq] at hret
      subst hret
      split <;> exact ⟨Nat.zero_le _, rfl, rfl⟩
  | waited len timeout waitStart =>
      simp only [getNext] at hret
      split at hret <;> cases hret
      exact ⟨Nat.zero_le _, rfl, rfl⟩
  | ifMore len =>
      simp only [getNext, Sum.inl.injEq] at hret
      subst hret
      split
      · exact ⟨Nat.zero_le _, rfl, rfl⟩
      · rename_i hle
        exact ⟨Nat.not_lt.mp hle, rfl, rfl⟩
  | clamp =>
      cases hret
      exact ⟨Nat.le_refl _, rfl, rfl⟩
  | head n out =>
      cases n with
      | zero => cases hret
      | succ n =>
          cases hret
          exact ⟨hdue, rfl, rfl⟩
  | dataLoad n out r =>
      cases hret
      refine ⟨hdue, ?_, ?_⟩
      · show rx.taken + 1 + rx.buf.pendingBytes + 0 = rx.taken + rx.buf.pendingBytes + 1
        omega
      · show (out ++ [rx.buf.data r]).length + rx.taken = out.length + (rx.taken + 1)
        rw [List.length_append, List.length_singleton]
        omega
  | rdLoad n out =>
      cases hret
      exact ⟨hdue, rfl, rfl⟩
  | rdStore n out r =>
      cases hret
      exact ⟨hdue, rfl, rfl⟩
  | pendLoad n out =>
      cases hret
      exact ⟨hdue, rfl, rfl⟩
  | pendStore n out p =>
      cases hret
      have hpos : n + 1 ≤ p := hdue
      have hdec : dec32 p = p - 1 := dec32_eq (by omega)
      refine ⟨?_, ?_, rfl⟩
      · show n ≤ dec32 p
        omega
      · show rx.taken + dec32 p + 1 = rx.taken + p + 0
        omega

/-- The return of `UartGetData` touches nothing and hands over what is copied. -/
theorem getNext_return {rx : RxSide} {p : GetPc} {curTime : UInt32} {out : Option (List UInt8)}
    (hret : (getNext curTime rx p).2 = .inr out) :
    (getNext curTime rx p).1 = rx ∧ out.getD [] = p.out ∧ (UartPc.get p).lag = 0 ∧
      effPending rx (.get p) = rx.buf.pendingBytes := by
  cases p with
  | waited len timeout waitStart =>
      simp only [getNext] at hret
      split at hret <;> cases hret
      exact ⟨rfl, rfl, rfl, rfl⟩
  | head n out =>
      cases n with
      | zero =>
          cases hret
          exact ⟨rfl, rfl, rfl, rfl⟩
      | succ n => cases hret
  | _ => cases hret

theorem getNext_received (curTime : UInt32) (rx : RxSide) (p : GetPc) :
    (getNext curTime rx p).1.received = rx.received := by
  cases p with
  | head n out => cases n <;> rfl
  | _ => rfl

/-- Nothing is counted that was not received, and nothing is delivered that was
not taken. -/
structure CountInv (base : ℕ) (s : Link) : Prop where
  wf : LinkWf s
  due_le : s.uart.pc.due ≤ effPending s.uart.rx s.uart.pc
  taken_le : s.uart.rx.taken + effPending s.uart.rx s.uart.pc ≤
    s.uart.rx.received.length + s.uart.pc.lag
  delivered_le : base + s.delivered.length ≤ s.uart.rx.taken

/-- Every byte received is delivered or counted. -/
def Balanced (base : ℕ) (s : Link) : Prop :=
  base + s.delivered.length + effPending s.uart.rx s.uart.pc =
    s.uart.rx.received.length + s.uart.pc.lag

theorem untouched_counts {s t : Link} (h : RxUntouched s t) :
    t.uart.pc.lag = s.uart.pc.lag ∧ t.uart.pc.due = s.uart.pc.due ∧
      effPending t.uart.rx t.uart.pc = effPending s.uart.rx s.uart.pc := by
  rw [h.rx]
  rcases h.pc with hpc | ⟨hidle, hstart⟩
  · rw [hpc]
    exact ⟨rfl, rfl, rfl⟩
  · obtain ⟨hlag, hdue, heff⟩ := atStart_counts hstart s.uart.rx
    rw [hlag, hdue, heff, hidle]
    exact ⟨rfl, rfl, rfl⟩

theorem countInv_untouched {base : ℕ} {s t : Link} (h : CountInv base s) (hun : RxUntouched s t)
    (hwf : LinkWf t) : CountInv base t ∧ (Balanced base t ↔ Balanced base s) := by
  obtain ⟨hlag, hdue, heff⟩ := untouched_counts hun
  refine ⟨⟨hwf, ?_, ?_, ?_⟩, ?_⟩
  · rw [hdue, heff]
    exact h.due_le
  · rw [heff, hlag, hun.rx]
    exact h.taken_le
  · rw [hun.delivered, hun.rx]
    exact h.delivered_le
  · unfold Balanced
    rw [hun.delivered, heff, hlag, hun.rx]

/-- The handler counts its byte, unless the main line is about to store over
the count. -/
theorem effPending_rxIrq (rx : RxSide) (pc : UartPc) (b : UInt8) :
    effPending (usart0RxIrqHandler rx b) pc =
      if pc.rxExposed then effPending rx pc else inc32 (effPending rx pc) := by
  cases pc with
  | idle => rfl
  | put p => rfl
  | get p => cases p <;> rfl
  | flush p => cases p <;> rfl

theorem countInv_rxIrq {base : ℕ} {s t : Link} {b : UInt8} (h : CountInv base s)
    (hroom : s.uart.rx.received.length < s.uart.rx.taken + 256)
    (ht : t = { s with uart := { s.uart with rx := usart0RxIrqHandler s.uart.rx b } }) :
    CountInv base t ∧ (Balanced base t ↔ Balanced base s ∧ s.uart.pc.rxExposed = false) := by
  subst ht
  have hlen := received_rxIrq s.uart.rx b
  have heff := effPending_rxIrq s.uart.rx s.uart.pc b
  have hlag : s.uart.pc.lag ≤ 1 := by
    unfold UartPc.lag
    split <;> decide
  obtain ⟨hwf, hdue, htaken, hdelivered⟩ := h
  have hinc : inc32 (effPending s.uart.rx s.uart.pc) = effPending s.uart.rx s.uart.pc + 1 :=
    inc32_eq (by omega)
  rw [hinc] at heff
  refine ⟨⟨⟨hwf.idle_uart, hwf.get_recv⟩, ?_, ?_, hdelivered⟩, ?_⟩
  · show s.uart.pc.due ≤ effPending (usart0RxIrqHandler s.uart.rx b) s.uart.pc
    rw [heff]
    split <;> omega
  · show s.uart.rx.taken + effPending (usart0RxIrqHandler s.uart.rx b) s.uart.pc ≤
      (usart0RxIrqHandler s.uart.rx b).received.length + s.uart.pc.lag
    rw [heff, hlen]
    split <;> omega
  · show base + s.delivered.length + effPending (usart0RxIrqHandler s.uart.rx b) s.uart.pc =
      (usart0RxIrqHandler s.uart.rx b).received.length + s.uart.pc.lag ↔ _
    unfold Balanced
    rw [heff, hlen]
    cases s.uart.pc.rxExposed with
    | false =>
        simp only [Bool.false_eq_true, if_false, and_true]
        omega
    | true =>
        simp only [if_true, Bool.true_eq_false, and_false, iff_false]
        omega

/-- A step outside `UartGetData` that takes nothing and leaves the count as it
will count. -/
structure CountsKept (s t : Link) : Prop where
  pc : t.pc = s.pc
  got : t.uart.got = s.uart.got
  not_get : ∀ p, s.uart.pc ≠ .get p
  not_get' : ∀ p, t.uart.pc ≠ .get p
  received : t.uart.rx.received = s.uart.rx.received
  taken : t.uart.rx.taken = s.uart.rx.taken
  eff : effPending t.uart.rx t.uart.pc = effPending s.uart.rx s.uart.pc

theorem lag_due_of_not_get {pc : UartPc} (h : ∀ p, pc ≠ .get p) : pc.lag = 0 ∧ pc.due = 0 := by
  cases pc with
  | get p => exact absurd rfl (h p)
  | idle => exact ⟨rfl, rfl⟩
  | put p => exact ⟨rfl, rfl⟩
  | flush p => exact ⟨rfl, rfl⟩

theorem delivered_of_not_get {s t : Link} (hreturned : t.returned = s.returned) (hpc : t.pc = s.pc)
    (hgot : t.uart.got = s.uart.got) (hs : ∀ p, s.uart.pc ≠ .get p) (ht : ∀ p, t.uart.pc ≠ .get p) :
    t.delivered = s.delivered := by
  unfold Link.delivered
  rw [copied_of_not_get hs, copied_of_not_get ht, hreturned, hpc, hgot]

theorem countInv_kept {base : ℕ} {s t : Link} (h : CountInv base s) (hkept : CountsKept s t)
    (hreturned : t.returned = s.returned) (hbusy : s.pc ≠ .idle) :
    CountInv base t ∧ (Balanced base t ↔ Balanced base s) := by
  obtain ⟨hlag, hdue⟩ := lag_due_of_not_get hkept.not_get
  obtain ⟨hlag', hdue'⟩ := lag_due_of_not_get hkept.not_get'
  have hdel : t.delivered = s.delivered :=
    delivered_of_not_get hreturned hkept.pc hkept.got hkept.not_get hkept.not_get'
  refine ⟨⟨⟨?_, ?_⟩, ?_, ?_, ?_⟩, ?_⟩
  · exact fun hidle => absurd (hkept.pc.symm.trans hidle) hbusy
  · exact fun p hp => absurd hp (hkept.not_get' p)
  · rw [hdue']
    exact Nat.zero_le _
  · rw [hkept.eff, hkept.received, hkept.taken, hlag', ← hlag]
    exact h.taken_le
  · rw [hdel, hkept.taken]
    exact h.delivered_le
  · unfold Balanced
    rw [hdel, hkept.eff, hkept.received, hlag', hlag]

/-- An access inside `UartGetData`, up to its return. -/
theorem countInv_get {base : ℕ} {s : Link} {p p' : GetPc} (h : CountInv base s)
    (hpc : s.uart.pc = .get p) (hret : (getNext (stamp s.uart.now) s.uart.rx p).2 = .inl p')
    {t : Link} (ht : t = { s with uart := { s.uart with
      rx := (getNext (stamp s.uart.now) s.uart.rx p).1, pc := .get p' } }) :
    CountInv base t ∧ (Balanced base t ↔ Balanced base s) := by
  obtain ⟨hwf, hdue, htaken, hdelivered⟩ := h
  obtain ⟨c, buf, hcaller⟩ := hwf.get_recv p hpc
  rw [hpc] at hdue htaken
  have hrec := getNext_received (stamp s.uart.now) s.uart.rx p
  obtain ⟨hdue', hbal, hout⟩ := getNext_counts hdue hret
  have hdel : s.delivered.length = (s.returned ++ buf).length + p.out.length := by
    rw [Link.delivered, copied_of_get hcaller hpc, hcaller, List.length_append]
    rfl
  have hdel' : t.delivered.length = (s.returned ++ buf).length + p'.out.length := by
    have hcaller' : t.pc = .recvGot c buf := by rw [ht]; exact hcaller
    have hpc' : t.uart.pc = .get p' := by rw [ht]
    rw [Link.delivered, copied_of_get hcaller' hpc', hcaller', List.length_append, ht]
    rfl
  subst ht
  refine ⟨⟨⟨?_, ?_⟩, hdue', ?_, ?_⟩, ?_⟩
  · intro hidle
    rw [show s.pc = .idle from hidle] at hcaller
    exact LinkPc.noConfusion hcaller
  · exact fun q _ => ⟨c, buf, hcaller⟩
  · show (getNext _ s.uart.rx p).1.taken + effPending (getNext _ s.uart.rx p).1 (.get p') ≤
      (getNext _ s.uart.rx p).1.received.length + (UartPc.get p').lag
    rw [hrec]
    omega
  · show base + _ ≤ (getNext _ s.uart.rx p).1.taken
    rw [hdel']
    omega
  · unfold Balanced
    rw [hdel', hdel, hpc]
    show base + _ + effPending (getNext _ s.uart.rx p).1 (.get p') =
      (getNext _ s.uart.rx p).1.received.length + (UartPc.get p').lag ↔ _
    rw [hrec]
    omega

/-- When `UartGetData` returns, what it copied is what its caller gets. -/
theorem delivered_got {s t : Link} {p : GetPc} {out : Option (List UInt8)} (hwf : LinkWf s)
    (hpc : s.uart.pc = .get p) (hret : (getNext (stamp s.uart.now) s.uart.rx p).2 = .inr out)
    (ht : t = { s with uart := { s.uart with
      rx := (getNext (stamp s.uart.now) s.uart.rx p).1, pc := .idle, got := out } }) :
    t.delivered = s.delivered ∧ t.uart.rx = s.uart.rx ∧ t.uart.pc = .idle := by
  obtain ⟨c, buf, hcaller⟩ := hwf.get_recv p hpc
  obtain ⟨hrx, hout, -, -⟩ := getNext_return hret
  have hpc' : t.pc = .recvGot c buf := by rw [ht]; exact hcaller
  have hnot : ∀ q, t.uart.pc ≠ .get q := by simp [ht]
  refine ⟨?_, by rw [ht]; exact hrx, by rw [ht]⟩
  rw [Link.delivered, Link.delivered, copied_of_get hcaller hpc, copied_of_not_get hnot, hpc',
    hcaller, ← hout, ht]

theorem countInv_got {base : ℕ} {s t : Link} {p : GetPc} {out : Option (List UInt8)}
    (h : CountInv base s) (hpc : s.uart.pc = .get p)
    (hret : (getNext (stamp s.uart.now) s.uart.rx p).2 = .inr out)
    (ht : t = { s with uart := { s.uart with
      rx := (getNext (stamp s.uart.now) s.uart.rx p).1, pc := .idle, got := out } }) :
    CountInv base t ∧ (Balanced base t ↔ Balanced base s) := by
  obtain ⟨-, -, hlag, heff⟩ := getNext_return hret
  obtain ⟨hdel, hrx, hidle⟩ := delivered_got h.wf hpc hret ht
  refine ⟨⟨⟨fun _ => hidle, fun q hq => ?_⟩, ?_, ?_, ?_⟩, ?_⟩
  · rw [hidle] at hq
    exact UartPc.noConfusion hq
  · rw [hidle]
    exact Nat.zero_le _
  · have htaken := h.taken_le
    rw [hpc, heff, hlag] at htaken
    rw [hidle, hrx]
    exact htaken
  · rw [hdel, hrx]
    exact h.delivered_le
  · unfold Balanced
    rw [hdel, hrx, hidle, hpc, heff, hlag]
    rfl

/-- The load of `wrI` in a flush: what is pending is given up. -/
theorem countInv_flush {base : ℕ} {s : Link} (h : CountInv base s)
    (hpc : s.uart.pc = .flush .wrLoad) (hbusy : s.pc ≠ .idle)
    {t : Link} (ht : t = { s with uart := { s.uart with
      rx := (flushNext s.uart.rx .wrLoad).1, pc := .flush (.rdStore s.uart.rx.buf.wrI) } }) :
    CountInv base t ∧
      (Balanced base t ↔ Balanced base s ∧ s.uart.rx.buf.pendingBytes = 0) := by
  have htaken := h.taken_le
  have hdelivered := h.delivered_le
  have hdel : t.delivered = s.delivered := by
    apply delivered_of_not_get
    · rw [ht]
    · rw [ht]
    · rw [ht]
    · simp [hpc]
    · simp [ht]
  rw [hpc] at htaken
  have hle : s.uart.rx.taken + s.uart.rx.buf.pendingBytes ≤ s.uart.rx.received.length := htaken
  subst ht
  refine ⟨⟨⟨fun hidle => absurd hidle hbusy, fun q hq => UartPc.noConfusion hq⟩, ?_, ?_, ?_⟩, ?_⟩
  · exact Nat.zero_le _
  · exact Nat.le_refl _
  · rw [hdel]
    show base + _ ≤ s.uart.rx.received.length
    omega
  · unfold Balanced
    rw [hdel, hpc]
    show base + _ + 0 = s.uart.rx.received.length + 0 ↔
      base + _ + s.uart.rx.buf.pendingBytes = s.uart.rx.received.length + 0 ∧ _
    omega

/-- What one access of the main line does to the balance: only the load of
`wrI` in a flush can spoil it. -/
theorem countInv_uartNext {base : ℕ} {s : Link} {uart : Uart} (h : CountInv base s)
    (hnext : uartNext s.uart = some uart) :
    CountInv base { s with uart := uart } ∧ (Balanced base { s with uart := uart } ↔
      Balanced base s ∧ (s.uart.pc = .flush .wrLoad → s.uart.rx.buf.pendingBytes = 0)) := by
  have hbusy : s.pc ≠ .idle := by
    intro hidle
    rw [uartNext, h.wf.idle_uart hidle] at hnext
    cases hnext
  by_cases hflush : s.uart.pc = .flush .wrLoad
  · have huart : uart = { s.uart with
        rx := (flushNext s.uart.rx .wrLoad).1, pc := .flush (.rdStore s.uart.rx.buf.wrI) } := by
      rw [uartNext, hflush] at hnext
      exact (Option.some.inj hnext).symm
    obtain ⟨hinv, hiff⟩ := countInv_flush h hflush hbusy (t := { s with uart := uart }) (by rw [huart])
    refine ⟨hinv, hiff.trans (and_congr_right fun _ => ?_)⟩
    exact ⟨fun hzero _ => hzero, fun himp => himp hflush⟩
  · rw [and_iff_left fun hpc => absurd hpc hflush]
    rcases uartNext_cases hnext with ⟨p, p', hpc, -, rfl⟩ | ⟨p, hpc, -, rfl⟩ |
      ⟨p, p', hpc, hret, rfl⟩ | ⟨p, out, hpc, hret, rfl⟩ | ⟨p, p', hpc, hret, rfl⟩ |
      ⟨p, hpc, hret, rfl⟩
    · refine countInv_kept h ⟨rfl, rfl, by simp [hpc], by simp, rfl, rfl, ?_⟩ rfl hbusy
      rw [hpc]
      rfl
    · refine countInv_kept h ⟨rfl, rfl, by simp [hpc], by simp, rfl, rfl, ?_⟩ rfl hbusy
      rw [hpc]
      rfl
    · exact countInv_get h hpc hret rfl
    · exact countInv_got h hpc hret rfl
    · cases p with
      | wrLoad => exact absurd hpc hflush
      | rdStore w =>
          cases hret
          refine countInv_kept h ⟨rfl, rfl, by simp [hpc], by simp, rfl, rfl, ?_⟩ rfl hbusy
          rw [hpc]
          rfl
      | pendStore =>
          cases hret
          refine countInv_kept h ⟨rfl, rfl, by simp [hpc], by simp, rfl, rfl, ?_⟩ rfl hbusy
          rw [hpc]
          rfl
      | overflowStore => cases hret
    · cases p with
      | overflowStore =>
          refine countInv_kept h ⟨rfl, rfl, by simp [hpc], by simp, rfl, rfl, ?_⟩ rfl hbusy
          rw [hpc]
          rfl
      | wrLoad => cases hret
      | rdStore w => cases hret
      | pendStore => cases hret

theorem balanced_step {base : ℕ} (s : Link) (a : LinkAct) (t : Link) (h : CountInv base s)
    (hroom : LinkRoom s a) (hstep : linkStep s a = some t) :
    CountInv base t ∧ (Balanced base t ↔ Balanced base s ∧ NothingDropped s a) := by
  rcases linkStep_cases h.wf hstep with ⟨hirq, hnext, hun, hwf⟩ | ⟨b, rfl, ht⟩ |
    ⟨rfl, uart, huart, rfl⟩
  · have hcond : NothingDropped s a := by
      refine ⟨fun b ha => absurd ha (hirq b), fun ha hflush => ?_⟩
      rw [hnext ha] at hflush
      exact UartPc.noConfusion hflush
    rw [and_iff_left hcond]
    exact countInv_untouched h hun hwf
  · have hcond : NothingDropped s (.rxIrq b) ↔ s.uart.pc.rxExposed = false := by
      constructor
      · exact fun hcond => hcond.1 b rfl
      · exact fun hexp => ⟨fun _ _ => hexp, fun ha => LinkAct.noConfusion ha⟩
    rw [hcond]
    exact countInv_rxIrq h (hroom b rfl) ht
  · have hcond : NothingDropped s .next ↔
        (s.uart.pc = .flush .wrLoad → s.uart.rx.buf.pendingBytes = 0) := by
      constructor
      · exact fun hcond => hcond.2 rfl
      · exact fun hflush => ⟨fun b ha => LinkAct.noConfusion ha, fun _ => hflush⟩
    rw [hcond]
    exact countInv_uartNext h huart

/-! ## The bytes themselves -/

/-- The ring is in order, and what was copied out is what was taken, in order. -/
structure StreamInv (base : ℕ) (s : Link) : Prop where
  rx : RxInv s.uart.rx s.uart.pc
  base_le : base ≤ s.uart.rx.taken
  delivered : s.delivered = (s.uart.rx.received.take s.uart.rx.taken).drop base

theorem RxInv.holds {rx : RxSide} {pc : UartPc} (h : RxInv rx pc) :
    Ring.Holds 256 rx.buf.data rx.received rx.taken := by
  cases pc with
  | idle => exact RxAt.holds h
  | put p => exact RxAt.holds h
  | get p =>
      cases p with
      | head n out => exact h.1.holds
      | dataLoad n out r => exact h.1.1.holds
      | rdLoad n out => exact h.1.holds
      | rdStore n out r => exact h.1.1.holds
      | pendLoad n out => exact h.1.holds
      | pendStore n out p => exact h.1.1.holds
      | _ => exact RxAt.holds h
  | flush p =>
      cases p with
      | rdStore w => exact h.1.holds
      | pendStore => exact h.1.holds
      | _ => exact RxAt.holds h

/-- Where a byte may arrive, the ring is in order up to the lags. -/
theorem RxInv.apart {rx : RxSide} {pc : UartPc} (h : RxInv rx pc) (hapart : pc.rxExposed = false) :
    ∃ rdLag pendLag, pendLag ≤ 1 ∧ RxAt rx rdLag pendLag := by
  have hlevel : RxAt rx 0 0 → ∃ rdLag pendLag, pendLag ≤ 1 ∧ RxAt rx rdLag pendLag :=
    fun hat => ⟨0, 0, Nat.zero_le 1, hat⟩
  cases pc with
  | idle => exact hlevel h
  | put p => exact hlevel h
  | get p =>
      cases p with
      | head n out => exact hlevel h.1
      | dataLoad n out r => exact hlevel h.1.1
      | rdLoad n out => exact ⟨1, 1, le_rfl, h.1⟩
      | rdStore n out r => exact ⟨1, 1, le_rfl, h.1.1⟩
      | pendLoad n out => exact ⟨0, 1, le_rfl, h.1⟩
      | pendStore n out p => exact Bool.noConfusion hapart
      | _ => exact hlevel h
  | flush p =>
      cases p with
      | rdStore w => exact Bool.noConfusion hapart
      | pendStore => exact Bool.noConfusion hapart
      | _ => exact hlevel h

theorem rxInv_atStart {rx : RxSide} {pc : UartPc} (h : RxAt rx 0 0) (hstart : pc.atStart = true) :
    RxInv rx pc := by
  cases pc with
  | idle => exact h
  | put p => exact h
  | get p => cases p <;> first | exact h | exact Bool.noConfusion hstart
  | flush p => cases p <;> first | exact h | exact Bool.noConfusion hstart

/-- An access of `UartGetData` copies the oldest byte, or none. -/
theorem getNext_copied {rx : RxSide} {p p' : GetPc} {curTime : UInt32} (h : GetInv rx p)
    (hret : (getNext curTime rx p).2 = .inl p') :
    (p'.out = p.out ∧ (getNext curTime rx p).1.taken = rx.taken) ∨
      ∃ hlt : rx.taken < rx.received.length, p'.out = p.out ++ [rx.received[rx.taken]] ∧
        (getNext curTime rx p).1.taken = rx.taken + 1 := by
  cases p with
  | dataLoad n out r =>
      obtain ⟨hlt, heq⟩ := getNext_dataLoad h curTime
      rw [heq] at hret ⊢
      cases hret
      exact Or.inr ⟨hlt, rfl, rfl⟩
  | start len timeout =>
      cases hret
      exact Or.inl ⟨rfl, rfl⟩
  | ifEmpty len timeout waitStart =>
      simp only [getNext, Sum.inl.injEq] at hret
      subst hret
      split <;> exact Or.inl ⟨rfl, rfl⟩
  | whileEmpty len timeout waitStart =>
      simp only [getNext, Sum.inl.injEq] at hret
      subst hret
      split <;> exact Or.inl ⟨rfl, rfl⟩
  | waited len timeout waitStart =>
      simp only [getNext] at hret
      split at hret <;> cases hret
      exact Or.inl ⟨rfl, rfl⟩
  | ifMore len =>
      simp only [getNext, Sum.inl.injEq] at hret
      subst hret
      split <;> exact Or.inl ⟨rfl, rfl⟩
  | clamp =>
      cases hret
      exact Or.inl ⟨rfl, rfl⟩
  | head n out =>
      cases n with
      | zero => cases hret
      | succ n =>
          cases hret
          exact Or.inl ⟨rfl, rfl⟩
  | rdLoad n out =>
      cases hret
      exact Or.inl ⟨rfl, rfl⟩
  | rdStore n out r =>
      cases hret
      exact Or.inl ⟨rfl, rfl⟩
  | pendLoad n out =>
      cases hret
      exact Or.inl ⟨rfl, rfl⟩
  | pendStore n out p =>
      cases hret
      exact Or.inl ⟨rfl, rfl⟩

theorem streamInv_get {base : ℕ} {s : Link} {p p' : GetPc} (hwf : LinkWf s) (h : StreamInv base s)
    (hpc : s.uart.pc = .get p) (hret : (getNext (stamp s.uart.now) s.uart.rx p).2 = .inl p')
    {t : Link} (hrx : RxInv t.uart.rx t.uart.pc) (ht : t = { s with uart := { s.uart with
      rx := (getNext (stamp s.uart.now) s.uart.rx p).1, pc := .get p' } }) : StreamInv base t := by
  obtain ⟨c, buf, hcaller⟩ := hwf.get_recv p hpc
  have hget : GetInv s.uart.rx p := by
    have hinv := h.rx
    rw [hpc] at hinv
    exact hinv
  have hdel : s.delivered = s.returned ++ buf ++ p.out := by
    rw [Link.delivered, copied_of_get hcaller hpc, hcaller]
    rfl
  have hdel' : t.delivered = s.returned ++ buf ++ p'.out := by
    have hcaller' : t.pc = .recvGot c buf := by rw [ht]; exact hcaller
    have hpc' : t.uart.pc = .get p' := by rw [ht]
    rw [Link.delivered, copied_of_get hcaller' hpc', hcaller', ht]
    rfl
  have hrec : t.uart.rx.received = s.uart.rx.received := by
    rw [ht]
    exact getNext_received _ _ p
  have hdelivered := h.delivered
  rcases getNext_copied hget hret with ⟨hout, htaken⟩ | ⟨hlt, hout, htaken⟩
  · have htaken' : t.uart.rx.taken = s.uart.rx.taken := by rw [ht]; exact htaken
    refine ⟨hrx, ?_, ?_⟩
    · rw [htaken']
      exact h.base_le
    · rw [hdel', hout, ← hdel, hdelivered, hrec, htaken']
  · have htaken' : t.uart.rx.taken = s.uart.rx.taken + 1 := by rw [ht]; exact htaken
    have hbase := h.base_le
    refine ⟨hrx, ?_, ?_⟩
    · rw [htaken']
      omega
    · have hlen : base ≤ (s.uart.rx.received.take s.uart.rx.taken).length := by
        rw [List.length_take]
        omega
      rw [hdel', hout, ← List.append_assoc, ← hdel, hdelivered, hrec, htaken',
        List.take_succ_eq_append_getElem hlt, List.drop_append_of_le_length hlen]

theorem streamInv_uartNext {base : ℕ} {s : Link} {uart : Uart} (hwf : LinkWf s)
    (h : StreamInv base s) (hnext : uartNext s.uart = some uart)
    (hflush : s.uart.pc = .flush .wrLoad → s.uart.rx.buf.pendingBytes = 0) :
    StreamInv base { s with uart := uart } := by
  have hrx : RxInv uart.rx uart.pc := rxInv_next h.rx hnext
  -- outside `UartGetData` nothing is copied
  have hquiet : uart.got = s.uart.got → (∀ p, s.uart.pc ≠ .get p) → (∀ p, uart.pc ≠ .get p) →
      uart.rx.received = s.uart.rx.received → uart.rx.taken = s.uart.rx.taken →
      StreamInv base { s with uart := uart } := by
    intro hgot hs ht hrec htaken
    have hdel : Link.delivered { s with uart := uart } = s.delivered :=
      delivered_of_not_get rfl rfl hgot hs ht
    refine ⟨hrx, ?_, ?_⟩
    · show base ≤ uart.rx.taken
      rw [htaken]
      exact h.base_le
    · rw [hdel]
      show s.delivered = (uart.rx.received.take uart.rx.taken).drop base
      rw [hrec, htaken]
      exact h.delivered
  rcases uartNext_cases hnext with ⟨p, p', hpc, -, rfl⟩ | ⟨p, hpc, -, rfl⟩ |
    ⟨p, p', hpc, hret, rfl⟩ | ⟨p, out, hpc, hret, rfl⟩ | ⟨p, p', hpc, hret, rfl⟩ |
    ⟨p, hpc, hret, rfl⟩
  · exact hquiet rfl (by simp [hpc]) (by simp) rfl rfl
  · exact hquiet rfl (by simp [hpc]) (by simp) rfl rfl
  · exact streamInv_get hwf h hpc hret hrx rfl
  · obtain ⟨hdel, hrx', hidle⟩ := delivered_got hwf hpc hret rfl
    refine ⟨hrx, ?_, ?_⟩
    · rw [hrx']
      exact h.base_le
    · rw [hdel, hrx']
      exact h.delivered
  · cases p with
    | wrLoad =>
        have hat : RxAt s.uart.rx 0 0 := by
          have hinv := h.rx
          rw [hpc] at hinv
          exact hinv
        have hpending := hat.pending_eq
        rw [hflush hpc] at hpending
        exact hquiet rfl (by simp [hpc]) (by simp) rfl hpending.symm
    | rdStore w => exact hquiet rfl (by simp [hpc]) (by simp) rfl rfl
    | pendStore => exact hquiet rfl (by simp [hpc]) (by simp) rfl rfl
    | overflowStore => cases hret
  · cases p with
    | overflowStore => exact hquiet rfl (by simp [hpc]) (by simp) rfl rfl
    | wrLoad => cases hret
    | rdStore w => cases hret
    | pendStore => cases hret

theorem streamInv_step {base : ℕ} (s : Link) (a : LinkAct) (t : Link) (hwf : LinkWf s)
    (h : StreamInv base s) (hroom : LinkRoom s a) (hcond : NothingDropped s a)
    (hstep : linkStep s a = some t) : StreamInv base t := by
  rcases linkStep_cases hwf hstep with ⟨-, -, hun, -⟩ | ⟨b, rfl, rfl⟩ | ⟨rfl, uart, huart, rfl⟩
  · have hrx : RxInv t.uart.rx t.uart.pc := by
      rw [hun.rx]
      rcases hun.pc with hpc | ⟨hidle, hstart⟩
      · rw [hpc]
        exact h.rx
      · have hinv := h.rx
        rw [hidle] at hinv
        exact rxInv_atStart hinv hstart
    refine ⟨hrx, ?_, ?_⟩
    · rw [hun.rx]
      exact h.base_le
    · rw [hun.delivered, hun.rx]
      exact h.delivered
  · refine ⟨rxInv_rxIrq h.rx (hroom b rfl) (hcond.1 b rfl) b, h.base_le, ?_⟩
    -- the byte comes after everything taken so far
    have htaken := h.rx.holds.taken_le
    show s.delivered = ((s.uart.rx.received ++ [b]).take s.uart.rx.taken).drop base
    rw [List.take_append_of_le_length htaken]
    exact h.delivered
  · exact streamInv_uartNext hwf h huart (hcond.2 rfl)

theorem pending_eq_drop {rx : RxSide} (h : RxAt rx 0 0) :
    rx.buf.pending = rx.received.drop rx.taken := by
  have hcount : rx.buf.pendingBytes = rx.received.length - rx.taken := by
    have hpending := h.pending_eq
    omega
  unfold CircularBuf.pending
  rw [hcount]
  exact h.holds.window_eq h.rdI_eq

theorem length_pending (buf : CircularBuf) : buf.pending.length = buf.pendingBytes :=
  Ring.length_window _ _

/-! ## Runs -/

/-- Between two calls, everything copied out has been returned. -/
theorem delivered_idle {s : Link} (hidle : s.pc = .idle) : s.delivered = s.returned := by
  unfold Link.delivered Link.copied
  rw [hidle]
  simp [LinkPc.buf]

theorem countInv_established {s : Link} (h : Established s) :
    CountInv s.uart.rx.taken s ∧ Balanced s.uart.rx.taken s := by
  have hpending := h.ring.pending_eq
  have hdel : s.delivered.length = 0 := by
    rw [delivered_idle h.pc, h.returned]
    rfl
  refine ⟨⟨⟨fun _ => h.uart_pc, fun p hp => ?_⟩, ?_, ?_, ?_⟩, ?_⟩
  · rw [h.uart_pc] at hp
    exact UartPc.noConfusion hp
  · rw [h.uart_pc]
    exact Nat.zero_le _
  · rw [h.uart_pc]
    exact hpending.le
  · rw [hdel]
    exact Nat.le_refl _
  · unfold Balanced
    rw [hdel, h.uart_pc]
    exact hpending

theorem streamInv_established {s : Link} (h : Established s) : StreamInv s.uart.rx.taken s where
  rx := by
    rw [h.uart_pc]
    exact h.ring
  base_le := Nat.le_refl _
  delivered := by
    rw [delivered_idle h.pc, h.returned]
    exact (List.drop_eq_nil_of_le (List.length_take_le _ _)).symm

/-- **The connected stream, exactly.** From an established connection on, with
never more than 256 unread bytes, and in a state between two calls: the bytes
returned by the reads followed by those pending are the bytes received, if and
only if no flush found or met a byte in the ring and none arrived while
`UartGetData` was storing its count. -/
theorem stream_intact_iff (start : Link) (hstart : Established start) (acts : List LinkAct)
    (s : Link) (hroom : Machine.Along linkStep LinkRoom start acts)
    (hrun : Machine.run linkStep start acts = some s) (hidle : s.pc = .idle) :
    StreamIntact start.uart.rx.taken s ↔ Machine.Along linkStep NothingDropped start acts := by
  obtain ⟨hcount, hbal⟩ := countInv_established hstart
  have hbalanced : Balanced start.uart.rx.taken s ↔
      Machine.Along linkStep NothingDropped start acts :=
    Machine.iff_along_of_along (P := CountInv start.uart.rx.taken)
      (fun u a v h hD hstep => (balanced_step u a v h hD hstep).1)
      (fun u a v h hD hstep => (balanced_step u a v h hD hstep).2) hcount hbal hroom hrun
  constructor
  · intro hintact
    -- an intact stream has the right length
    apply hbalanced.mp
    have hinv : CountInv start.uart.rx.taken s := by
      refine Machine.run_inv_of_along (C := LinkRoom) ?_ hcount hroom hrun
      exact fun u a v h hD hstep => (balanced_step u a v h hD hstep).1
    have hlen := congrArg List.length hintact
    rw [List.length_append, length_pending, List.length_drop] at hlen
    have hdelivered := hinv.delivered_le
    have htaken := hinv.taken_le
    have huart := hinv.wf.idle_uart hidle
    unfold Balanced
    rw [delivered_idle hidle] at hdelivered ⊢
    rw [huart] at htaken ⊢
    have hle : s.uart.rx.taken + s.uart.rx.buf.pendingBytes ≤ s.uart.rx.received.length := htaken
    show start.uart.rx.taken + s.returned.length + s.uart.rx.buf.pendingBytes =
      s.uart.rx.received.length + 0
    omega
  · intro hcond
    have hinv : CountInv start.uart.rx.taken s ∧ StreamInv start.uart.rx.taken s := by
      refine Machine.run_inv_of_along
        (P := fun u => CountInv start.uart.rx.taken u ∧ StreamInv start.uart.rx.taken u) ?_
        ⟨hcount, streamInv_established hstart⟩ (hroom.and hcond) hrun
      intro u a v h hC hstep
      exact ⟨(balanced_step u a v h.1 hC.1 hstep).1,
        streamInv_step u a v h.1.wf h.2 hC.1 hC.2 hstep⟩
    have huart := hinv.1.wf.idle_uart hidle
    have hat : RxAt s.uart.rx 0 0 := by
      have hrx := hinv.2.rx
      rw [huart] at hrx
      exact hrx
    have hdelivered := hinv.2.delivered
    have hbase : start.uart.rx.taken ≤ (s.uart.rx.received.take s.uart.rx.taken).length := by
      have hbase := hinv.2.base_le
      have htaken := hat.holds.taken_le
      rw [List.length_take]
      omega
    unfold StreamIntact
    rw [pending_eq_drop hat, ← delivered_idle hidle, hdelivered,
      ← List.drop_append_of_le_length hbase, List.take_append_drop]

/-! A byte arrives; in one run it is read, in the other one the firmware writes
first. -/

/-- The byte is read by a `CellularRead` of one byte. -/
def readRun : List LinkAct :=
  .rxIrq 108 :: .cellularRead 1 1000 :: List.replicate 13 .next

/-- A byte is written before any read. -/
def writeRun : List LinkAct :=
  .rxIrq 108 :: .cellularWrite [48] :: (List.replicate 14 .next ++ [.txIrq, .next])

theorem readRun_result :
    (Machine.run linkStep {} readRun).map
        (fun s => (s.pc, s.returned, s.uart.rx.received, s.uart.rx.buf.pendingBytes)) =
      some (.idle, [108], [108], 0) := by
  decide +kernel

theorem writeRun_result :
    (Machine.run linkStep {} writeRun).map
        (fun s => (s.pc, s.returned, s.uart.rx.received, s.uart.rx.buf.pendingBytes)) =
      some (.idle, [], [108], 0) := by
  decide +kernel

theorem established_init : Established {} where
  pc := rfl
  uart_pc := rfl
  returned := rfl
  ring := rxAt_init

/-- One byte, at the start, finds room. -/
theorem linkRoom_first {b : UInt8} {acts : List LinkAct} (h : ∀ a ∈ acts, ∀ c, a ≠ .rxIrq c) :
    Machine.Along linkStep LinkRoom {} (.rxIrq b :: acts) := by
  apply Machine.along_cons
  · intro c hc
    exact Nat.zero_lt_succ _
  · intro t ht
    apply Machine.along_of_mem
    intro a ha u c hc
    exact absurd hc (h a ha c)

theorem pending_nil {buf : CircularBuf} (h : buf.pendingBytes = 0) : buf.pending = [] := by
  apply List.eq_nil_of_length_eq_zero
  rw [length_pending, h]

/-- The byte that arrived before the write is in no read and not pending. -/
theorem received_byte_lost : Machine.Along linkStep LinkRoom {} writeRun ∧
    ∃ s, Machine.run linkStep {} writeRun = some s ∧ s.pc = .idle ∧ ¬ StreamIntact 0 s := by
  refine ⟨linkRoom_first (by simp), ?_⟩
  obtain ⟨s, hrun, hs⟩ := Option.map_eq_some_iff.mp writeRun_result
  simp only [Prod.mk.injEq] at hs
  obtain ⟨hpc, hreturned, hreceived, hpending⟩ := hs
  refine ⟨s, hrun, hpc, ?_⟩
  unfold StreamIntact
  rw [hreturned, hreceived, pending_nil hpending]
  simp

/-- Read first, the byte is delivered, and no flush meets it. -/
theorem readRun_nothing_dropped : Machine.Along linkStep NothingDropped {} readRun := by
  obtain ⟨s, hrun, hs⟩ := Option.map_eq_some_iff.mp readRun_result
  simp only [Prod.mk.injEq] at hs
  obtain ⟨hpc, hreturned, hreceived, hpending⟩ := hs
  refine (stream_intact_iff {} established_init readRun s (linkRoom_first (by simp)) hrun hpc).mp ?_
  unfold StreamIntact
  rw [hreturned, hreceived, pending_nil hpending]
  rfl

end SmartDoorLock
