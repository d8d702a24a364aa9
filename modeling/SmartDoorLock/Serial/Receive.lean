import SmartDoorLock.Serial.Stream

/-!
# One reception

A run of a single `SerialRecv`, from its call to its return, with the receive
handler between any two accesses and any passing of time. That what is copied
out is the oldest unread bytes, in order, is the invariant of the stream. How
much is copied is decided in `UartGetData`: it compares `data_len` with the
count, and when there is less it loads the count again. Bytes that arrive
between the two loads are copied as well, past what was asked for.
-/

namespace SmartDoorLock

open WrapClock Machine

/-! ## The property and the condition -/

/-- `SerialRecv(buf, max_len, timeout_ms)` has read `start`, and stands at the
head of its loop; the ring is in order. What is returned is logged from here on. -/
structure RecvCalled (maxLen : ℕ) (timeout : UInt32) (s : Link) : Prop where
  pc : s.pc = .recvLoop ⟨maxLen, timeout, stamp s.uart.now⟩ []
  uart_pc : s.uart.pc = .idle
  ring : RxAt s.uart.rx 0 0
  returned : s.returned = []

/-- `SerialRecv` has not returned before the step, a byte that arrives finds at
most 255 unread ones, and it does not arrive inside `pendingBytes--`. -/
def InRecv (s : Link) (a : LinkAct) : Prop :=
  s.pc ≠ .idle ∧ LinkRoom s a ∧ ∀ b, a = .rxIrq b → s.uart.pc.rxExposed = false

/-- The `int` returned for a `total_read` of `n`. -/
def returnCode (n : ℕ) : ℤ := (BitVec.ofNat 32 n).toInt

/-- What `SerialRecv` is to do in a run that ends with its return: no byte is
ever stored at or beyond `buf[max_len]`, what it returned and what is left in the
ring are the unread bytes in order, the return code is their number, and when
this is less than `max_len` the time has run out. -/
structure RecvExact (maxLen : ℕ) (timeout : UInt32) (start : Link) (acts : List LinkAct)
    (s : Link) : Prop where
  in_buffer : Throughout linkStep (fun u => u.delivered.length ≤ maxLen) start acts
  fifo : s.returned ++ s.uart.rx.buf.pending = s.uart.rx.received.drop start.uart.rx.taken
  rc : returnCode s.returned.length = s.returned.length
  timed_out : s.returned.length < maxLen → start.uart.now + timeout.toNat ≤ s.uart.now

/-- What `UartGetData` is asked for. -/
def LinkPc.asked : LinkPc → ℕ
  | .recvGot c buf => min (c.maxLen - buf.length) CIRCULAR_BUF_SIZE
  | _ => 0

/-- When the count is loaded to limit `data_len`, it is not more than that. -/
def ClampFits (s : Link) (a : LinkAct) : Prop :=
  a = .next → s.uart.pc = .get .clamp → s.uart.rx.buf.pendingBytes ≤ s.pc.asked

/-- A check in the wait of `UartGetData` that finds time left. -/
def Waits (s : Link) (a : LinkAct) : Prop :=
  a = .next ∧ match s.uart.pc with
    | .get (.waited _ timeout waitStart) => stamp s.uart.now - waitStart < timeout
    | _ => False

instance (s : Link) (a : LinkAct) : Decidable (Waits s a) := by
  unfold Waits
  split <;> infer_instance

/-- The two accesses of the wait up to the next such check. -/
def waits (s : Link) (a : LinkAct) : ℕ := if Waits s a then 2 else 0

/-! ## Where the call stands -/

section

variable (maxLen : ℕ) (timeout : UInt32) (t0 : ℕ)

/-- A wait that began at `waitStart` with `left` ms to go ends with the call. -/
def WaitsFrom (now : ℕ) (left waitStart : UInt32) : Prop :=
  ∃ t, t ≤ now ∧ waitStart = stamp t ∧ t0 + timeout.toNat ≤ t + left.toNat

/-- What holds at a point of `UartGetData`, when `asked` bytes are asked for. -/
def GetAt (asked : ℕ) (now : ℕ) (rx : RxSide) : GetPc → Prop
  | .start len left => len = asked ∧ t0 + timeout.toNat ≤ now + left.toNat
  | .ifEmpty len left waitStart => len = asked ∧ WaitsFrom timeout t0 now left waitStart
  | .whileEmpty len left waitStart => len = asked ∧ WaitsFrom timeout t0 now left waitStart
  | .waited len left waitStart => len = asked ∧ WaitsFrom timeout t0 now left waitStart
  | .ifMore len => len = asked ∧ 0 < rx.buf.pendingBytes
  | .clamp => 0 < rx.buf.pendingBytes
  | .head n out => 0 < out.length + n ∧ n ≤ CIRCULAR_BUF_SIZE
  | .dataLoad n _ _ => n < CIRCULAR_BUF_SIZE
  | .rdLoad n out => 0 < out.length ∧ n < CIRCULAR_BUF_SIZE
  | .rdStore n out _ => 0 < out.length ∧ n < CIRCULAR_BUF_SIZE
  | .pendLoad n out => 0 < out.length ∧ n < CIRCULAR_BUF_SIZE
  | .pendStore n out _ => 0 < out.length ∧ n < CIRCULAR_BUF_SIZE

/-- What holds where `UartGetData` is not in progress: a `-1` means that the time
has run out, and otherwise it has returned something. -/
def GotAt (now : ℕ) : Option (List UInt8) → Prop
  | none => t0 + timeout.toNat ≤ now
  | some out => out ≠ []

/-- Where the call stands, as far as it does not depend on how much is copied. -/
structure RecvAt (s : Link) : Prop where
  now_le : t0 ≤ s.uart.now
  idle : s.pc = .idle → s.uart.pc = .idle ∧
    (s.returned.length < maxLen → t0 + timeout.toNat ≤ s.uart.now)
  busy : s.pc ≠ .idle → s.returned = [] ∧ ∃ buf,
    (s.pc = .recvLoop ⟨maxLen, timeout, stamp t0⟩ buf ∧ s.uart.pc = .idle) ∨
    (s.pc = .recvGot ⟨maxLen, timeout, stamp t0⟩ buf ∧ buf.length < maxLen ∧
      (s.uart.pc = .idle ∧ GotAt timeout t0 s.uart.now s.uart.got ∨
        ∃ p, s.uart.pc = .get p ∧ GetAt timeout t0 s.pc.asked s.uart.now s.uart.rx p))

/-- The steps of the call, each with what it is enabled by. -/
inductive RecvStep (s : Link) : LinkAct → Link → Prop where
  | elapse (d : ℕ) :
      RecvStep s (.elapse d) { s with uart := { s.uart with now := s.uart.now + d } }
  | rxIrq (b : UInt8) :
      RecvStep s (.rxIrq b) { s with uart := { s.uart with rx := usart0RxIrqHandler s.uart.rx b } }
  | txIrq : RecvStep s .txIrq { s with uart := { s.uart with tx := usart0TxIrqHandler s.uart.tx } }
  /-- the time has run out at the head of the loop -/
  | expired (buf : List UInt8) (hpc : s.pc = .recvLoop ⟨maxLen, timeout, stamp t0⟩ buf)
      (huart : s.uart.pc = .idle) (hexpired : timeout ≤ stamp s.uart.now - stamp t0) :
      RecvStep s .next { s with pc := .idle, returned := s.returned ++ buf }
  /-- the buffer is full at the head of the loop -/
  | full (buf : List UInt8) (hpc : s.pc = .recvLoop ⟨maxLen, timeout, stamp t0⟩ buf)
      (huart : s.uart.pc = .idle) (hfull : maxLen ≤ buf.length) :
      RecvStep s .next { s with pc := .idle, returned := s.returned ++ buf }
  | ask (buf : List UInt8) (hpc : s.pc = .recvLoop ⟨maxLen, timeout, stamp t0⟩ buf)
      (huart : s.uart.pc = .idle) (hlt : buf.length < maxLen)
      (hleft : stamp s.uart.now - stamp t0 < timeout) :
      RecvStep s .next { s with
        uart := { s.uart with
          pc := .get (.start (min (maxLen - buf.length) CIRCULAR_BUF_SIZE)
            (timeout - (stamp s.uart.now - stamp t0))) }
        pc := .recvGot ⟨maxLen, timeout, stamp t0⟩ buf }
  /-- `UartGetData` has returned -1 -/
  | gotNone (buf : List UInt8) (hpc : s.pc = .recvGot ⟨maxLen, timeout, stamp t0⟩ buf)
      (huart : s.uart.pc = .idle) (hgot : s.uart.got = none) :
      RecvStep s .next { s with pc := .idle, returned := s.returned ++ buf }
  | gotSome (buf out : List UInt8) (hpc : s.pc = .recvGot ⟨maxLen, timeout, stamp t0⟩ buf)
      (huart : s.uart.pc = .idle) (hgot : s.uart.got = some out) (hout : out ≠ []) :
      RecvStep s .next { s with pc := .recvLoop ⟨maxLen, timeout, stamp t0⟩ (buf ++ out) }
  /-- an access of `UartGetData` -/
  | get (buf : List UInt8) (p p' : GetPc)
      (hpc : s.pc = .recvGot ⟨maxLen, timeout, stamp t0⟩ buf) (huart : s.uart.pc = .get p)
      (hret : (getNext (stamp s.uart.now) s.uart.rx p).2 = .inl p') :
      RecvStep s .next { s with
        uart := { s.uart with rx := (getNext (stamp s.uart.now) s.uart.rx p).1, pc := .get p' } }
  | ret (buf : List UInt8) (p : GetPc) (out : Option (List UInt8))
      (hpc : s.pc = .recvGot ⟨maxLen, timeout, stamp t0⟩ buf) (huart : s.uart.pc = .get p)
      (hret : (getNext (stamp s.uart.now) s.uart.rx p).2 = .inr out) :
      RecvStep s .next { s with
        uart := { s.uart with
          rx := (getNext (stamp s.uart.now) s.uart.rx p).1, pc := .idle, got := out } }

end

variable {maxLen : ℕ} {timeout : UInt32} {t0 : ℕ}

/-- **What a step of the call can do.** -/
theorem recvStep_cases {s t : Link} {a : LinkAct} (h : RecvAt maxLen timeout t0 s)
    (hbusy : s.pc ≠ .idle) (hstep : linkStep s a = some t) :
    RecvStep maxLen timeout t0 s a t := by
  obtain ⟨-, buf, hat⟩ := h.busy hbusy
  cases a with
  | elapse d =>
      cases hstep
      exact .elapse d
  | rxIrq b =>
      cases hstep
      exact .rxIrq b
  | txIrq =>
      simp only [linkStep, uartStep] at hstep
      split at hstep <;> cases hstep
      exact .txIrq
  | cellularRead maxLen timeout => exact absurd hstep (by simp [linkStep, hbusy])
  | cellularWrite payload => exact absurd hstep (by simp [linkStep, hbusy])
  | next =>
      rcases hat with ⟨hpc, huart⟩ | ⟨hpc, hlt, ⟨huart, hgot⟩ | ⟨p, huart, hget⟩⟩
      · simp only [linkStep, huart, if_true, callerNext, hpc] at hstep
        split at hstep
        · rename_i hlt
          split at hstep
          · rename_i hexpired
            cases hstep
            exact .expired buf hpc huart hexpired
          · rename_i hleft
            simp only [uartStep, huart, if_true, Option.map_some] at hstep
            cases hstep
            exact .ask buf hpc huart hlt (UInt32.not_le.mp hleft)
        · rename_i hfull
          cases hstep
          exact .full buf hpc huart (Nat.not_lt.mp hfull)
      · simp only [linkStep, huart, if_true, callerNext, hpc] at hstep
        split at hstep
        · rename_i hnone
          cases hstep
          exact .gotNone buf hpc huart hnone
        · rename_i hnil
          rw [hnil] at hgot
          exact absurd rfl hgot
        · rename_i x xs hsome
          cases hstep
          exact .gotSome buf (x :: xs) hpc huart hsome (List.cons_ne_nil x xs)
      · have hnot : s.uart.pc ≠ .idle := by simp [huart]
        simp only [linkStep, if_neg hnot] at hstep
        obtain ⟨uart, hnext, rfl⟩ := Option.map_eq_some_iff.mp hstep
        simp only [uartStep, uartNext, huart] at hnext
        cases hret : (getNext (stamp s.uart.now) s.uart.rx p).2 with
        | inl p' =>
            simp only [hret, Option.some.injEq] at hnext
            subst hnext
            exact .get buf p p' hpc huart hret
        | inr out =>
            simp only [hret, Option.some.injEq] at hnext
            subst hnext
            exact .ret buf p out hpc huart hret

/-! ## The points of the call, step by step -/

theorem WaitsFrom.mono {now now' : ℕ} {left waitStart : UInt32}
    (h : WaitsFrom timeout t0 now left waitStart) (hle : now ≤ now') :
    WaitsFrom timeout t0 now' left waitStart := by
  obtain ⟨t, ht, hstart, hend⟩ := h
  exact ⟨t, ht.trans hle, hstart, hend⟩

theorem GetAt.mono {asked now now' : ℕ} {rx : RxSide} {p : GetPc}
    (h : GetAt timeout t0 asked now rx p) (hle : now ≤ now') :
    GetAt timeout t0 asked now' rx p := by
  cases p with
  | start len left => exact ⟨h.1, h.2.trans (Nat.add_le_add_right hle _)⟩
  | ifEmpty len left waitStart => exact ⟨h.1, h.2.mono hle⟩
  | whileEmpty len left waitStart => exact ⟨h.1, h.2.mono hle⟩
  | waited len left waitStart => exact ⟨h.1, h.2.mono hle⟩
  | _ => exact h

/-- A byte that arrives leaves the count positive. -/
theorem GetAt.rxIrq {asked now : ℕ} {rx : RxSide} {p : GetPc} (h : GetAt timeout t0 asked now rx p)
    (hpending : rx.buf.pendingBytes < 2 ^ 32 - 1) (b : UInt8) :
    GetAt timeout t0 asked now (usart0RxIrqHandler rx b) p := by
  have hpos : 0 < (usart0RxIrqHandler rx b).buf.pendingBytes := by
    show 0 < inc32 rx.buf.pendingBytes
    rw [inc32_eq hpending]
    exact Nat.succ_pos _
  cases p with
  | ifMore len => exact ⟨h.1, hpos⟩
  | clamp => exact hpos
  | _ => exact h

theorem GotAt.mono {now now' : ℕ} {got : Option (List UInt8)} (h : GotAt timeout t0 now got)
    (hle : now ≤ now') : GotAt timeout t0 now' got := by
  cases got with
  | none => exact Nat.le_trans h hle
  | some out => exact h

/-- In the invariant of the ring the count is at most that of a full ring, but
for a byte that is copied and not yet counted down. -/
theorem RxInv.pending_le {rx : RxSide} {pc : UartPc} (h : RxInv rx pc)
    (hapart : pc.rxExposed = false) : rx.buf.pendingBytes ≤ 257 := by
  obtain ⟨rdLag, pendLag, hlag, hat⟩ := h.apart hapart
  have hpending := hat.pending_eq
  have hfits := hat.holds.fits
  omega

/-- An access of `UartGetData`. -/
theorem getAt_next {asked now : ℕ} {rx : RxSide} {p p' : GetPc}
    (h : GetAt timeout t0 asked now rx p) (hinv : GetInv rx p) (hpos : 0 < asked)
    (hle : asked ≤ CIRCULAR_BUF_SIZE) (hret : (getNext (stamp now) rx p).2 = .inl p') :
    GetAt timeout t0 asked now (getNext (stamp now) rx p).1 p' := by
  cases p with
  | start len left =>
      cases hret
      exact ⟨h.1, now, le_rfl, rfl, h.2⟩
  | ifEmpty len left waitStart =>
      simp only [getNext, Sum.inl.injEq] at hret
      subst hret
      split
      · exact h
      · rename_i hpending
        refine ⟨h.1, ?_⟩
        show 0 < rx.buf.pendingBytes
        omega
  | whileEmpty len left waitStart =>
      simp only [getNext, Sum.inl.injEq] at hret
      subst hret
      split
      · exact h
      · rename_i hpending
        refine ⟨h.1, ?_⟩
        show 0 < rx.buf.pendingBytes
        omega
  | waited len left waitStart =>
      simp only [getNext] at hret
      split at hret <;> cases hret
      exact h
  | ifMore len =>
      simp only [getNext, Sum.inl.injEq] at hret
      subst hret
      split
      · exact h.2
      · obtain ⟨rfl, -⟩ := h
        exact ⟨by simpa using hpos, hle⟩
  | clamp =>
      cases hret
      have hat : RxAt rx 0 0 := hinv
      have hpending := hat.pending_eq
      have hfits := hat.holds.fits
      have hpositive : 0 < rx.buf.pendingBytes := h
      refine ⟨by simpa using hpositive, ?_⟩
      show rx.buf.pendingBytes ≤ 256
      omega
  | head n out =>
      cases n with
      | zero => cases hret
      | succ n =>
          cases hret
          exact h.2
  | dataLoad n out r =>
      cases hret
      exact ⟨by simp, h⟩
  | rdLoad n out =>
      cases hret
      exact h
  | rdStore n out r =>
      cases hret
      exact h
  | pendLoad n out =>
      cases hret
      exact h
  | pendStore n out p =>
      cases hret
      exact ⟨Nat.add_pos_left h.1 n, Nat.le_of_lt h.2⟩

/-- The return of `UartGetData`: nothing only when the time has run out. -/
theorem gotAt_return {asked now : ℕ} {rx : RxSide} {p : GetPc} {out : Option (List UInt8)}
    (h : GetAt timeout t0 asked now rx p) (hret : (getNext (stamp now) rx p).2 = .inr out) :
    GotAt timeout t0 now out := by
  cases p with
  | waited len left waitStart =>
      simp only [getNext] at hret
      split at hret <;> cases hret
      rename_i hexpired
      obtain ⟨-, t, ht, rfl, hend⟩ := h
      have hover := le_of_elapsed ht hexpired
      show t0 + timeout.toNat ≤ now
      omega
  | head n out =>
      cases n with
      | zero =>
          cases hret
          have hpos : 0 < out.length + 0 := h.1
          exact List.ne_nil_of_length_pos hpos
      | succ n => cases hret
  | _ => cases hret

/-- What is left of the time when `UartGetData` is called. -/
theorem le_left {now : ℕ} (hle : t0 ≤ now) (hleft : stamp now - stamp t0 < timeout) :
    t0 + timeout.toNat ≤ now + (timeout - (stamp now - stamp t0)).toNat := by
  have helapsed := toNat_elapsed_le hle
  rw [UInt32.toNat_sub_of_le _ _ (UInt32.le_of_lt hleft)]
  omega

theorem RecvAt.wf {s : Link} (h : RecvAt maxLen timeout t0 s) : LinkWf s where
  idle_uart hidle := (h.idle hidle).1
  get_recv p hp := by
    by_cases hidle : s.pc = .idle
    · rw [(h.idle hidle).1] at hp
      cases hp
    · obtain ⟨-, buf, ⟨-, huart⟩ | ⟨hpc, -⟩⟩ := h.busy hidle
      · rw [huart] at hp
        cases hp
      · exact ⟨_, buf, hpc⟩

/-- The call does not flush. -/
theorem RecvAt.not_flush {s : Link} (h : RecvAt maxLen timeout t0 s) (p : FlushPc) :
    s.uart.pc ≠ .flush p := by
  intro hp
  by_cases hidle : s.pc = .idle
  · rw [(h.idle hidle).1] at hp
    cases hp
  · obtain ⟨-, buf, ⟨-, huart⟩ | ⟨-, -, ⟨huart, -⟩ | ⟨q, huart, -⟩⟩⟩ := h.busy hidle <;>
      · rw [huart] at hp
        cases hp

/-- In `UartGetData`. -/
theorem RecvAt.at_get {s : Link} {buf : List UInt8} {p : GetPc} (h : RecvAt maxLen timeout t0 s)
    (hpc : s.pc = .recvGot ⟨maxLen, timeout, stamp t0⟩ buf) (huart : s.uart.pc = .get p) :
    s.returned = [] ∧ buf.length < maxLen ∧
      GetAt timeout t0 s.pc.asked s.uart.now s.uart.rx p := by
  obtain ⟨hnone, buf', ⟨hpc', -⟩ | ⟨hpc', hlt, ⟨huart', -⟩ | ⟨q, huart', hget⟩⟩⟩ :=
    h.busy (by simp [hpc])
  · rw [hpc] at hpc'
    cases hpc'
  · rw [huart] at huart'
    cases huart'
  · rw [hpc] at hpc'
    rw [huart] at huart'
    cases hpc'
    cases huart'
    exact ⟨hnone, hlt, hget⟩

theorem asked_recvGot {pc : LinkPc} {c : RecvCall} {buf : List UInt8} (hpc : pc = .recvGot c buf) :
    pc.asked = min (c.maxLen - buf.length) CIRCULAR_BUF_SIZE := by
  rw [hpc]
  rfl

theorem asked_pos {pc : LinkPc} {c : RecvCall} {buf : List UInt8} (hpc : pc = .recvGot c buf)
    (hlt : buf.length < c.maxLen) : 0 < pc.asked ∧ pc.asked ≤ CIRCULAR_BUF_SIZE := by
  rw [asked_recvGot hpc]
  exact ⟨lt_min (Nat.sub_pos_of_lt hlt) (by decide), Nat.min_le_right _ _⟩

theorem getInv_of_pc {s : Link} {p : GetPc} (h : RxInv s.uart.rx s.uart.pc)
    (huart : s.uart.pc = .get p) : GetInv s.uart.rx p := by
  rw [huart] at h
  exact h

theorem recvAt_step (s : Link) (a : LinkAct) (t : Link) (h : RecvAt maxLen timeout t0 s)
    (hrx : RxInv s.uart.rx s.uart.pc) (hin : InRecv s a) (hstep : linkStep s a = some t) :
    RecvAt maxLen timeout t0 t := by
  obtain ⟨hbusy, -, hapart⟩ := hin
  obtain ⟨hnone, buf', hat⟩ := h.busy hbusy
  cases recvStep_cases h hbusy hstep with
  | elapse d =>
      refine ⟨h.now_le.trans (Nat.le_add_right _ _), fun hidle => absurd hidle hbusy, fun _ => ?_⟩
      refine ⟨hnone, buf', hat.imp id fun ⟨hpc, hlt, hget⟩ => ⟨hpc, hlt, ?_⟩⟩
      rcases hget with ⟨huart, hgot⟩ | ⟨p, huart, hget⟩
      · exact Or.inl ⟨huart, hgot.mono (Nat.le_add_right _ _)⟩
      · exact Or.inr ⟨p, huart, hget.mono (Nat.le_add_right _ _)⟩
  | rxIrq b =>
      refine ⟨h.now_le, fun hidle => absurd hidle hbusy, fun _ => ?_⟩
      refine ⟨hnone, buf', hat.imp id fun ⟨hpc, hlt, hget⟩ => ⟨hpc, hlt, hget.imp id ?_⟩⟩
      rintro ⟨p, huart, hget⟩
      have hpending := hrx.pending_le (hapart b rfl)
      exact ⟨p, huart, hget.rxIrq (by omega) b⟩
  | txIrq => exact ⟨h.now_le, fun hidle => absurd hidle hbusy, fun _ => ⟨hnone, buf', hat⟩⟩
  | expired buf hpc huart hexpired =>
      refine ⟨h.now_le, fun _ => ⟨huart, fun _ => ?_⟩, fun hne => absurd rfl hne⟩
      exact le_of_elapsed h.now_le hexpired
  | full buf hpc huart hfull =>
      refine ⟨h.now_le, fun _ => ⟨huart, fun hlt => ?_⟩, fun hne => absurd rfl hne⟩
      have hlen : (s.returned ++ buf).length < maxLen := hlt
      rw [hnone, List.nil_append] at hlen
      exact absurd hlen (Nat.not_lt.mpr hfull)
  | ask buf hpc huart hlt hleft =>
      refine ⟨h.now_le, fun hidle => LinkPc.noConfusion hidle, fun _ => ⟨hnone, buf, ?_⟩⟩
      exact Or.inr ⟨rfl, hlt, Or.inr ⟨_, rfl, rfl, le_left h.now_le hleft⟩⟩
  | gotNone buf hpc huart hgot =>
      refine ⟨h.now_le, fun _ => ⟨huart, fun _ => ?_⟩, fun hne => absurd rfl hne⟩
      rcases hat with ⟨hpc', -⟩ | ⟨-, -, ⟨-, hnow⟩ | ⟨p, huart', -⟩⟩
      · rw [hpc] at hpc'
        cases hpc'
      · rw [hgot] at hnow
        exact hnow
      · rw [huart] at huart'
        cases huart'
  | gotSome buf out hpc huart hgot hout =>
      refine ⟨h.now_le, fun hidle => LinkPc.noConfusion hidle, fun _ => ⟨hnone, buf ++ out, ?_⟩⟩
      exact Or.inl ⟨rfl, huart⟩
  | get buf p p' hpc huart hret =>
      refine ⟨h.now_le, fun hidle => absurd hidle hbusy, fun _ => ⟨hnone, buf, Or.inr ⟨hpc, ?_⟩⟩⟩
      obtain ⟨-, hlt, hget⟩ := h.at_get hpc huart
      obtain ⟨hpos, hle⟩ := asked_pos hpc hlt
      exact ⟨hlt, Or.inr ⟨p', rfl, getAt_next hget (getInv_of_pc hrx huart) hpos hle hret⟩⟩
  | ret buf p out hpc huart hret =>
      refine ⟨h.now_le, fun hidle => absurd hidle hbusy, fun _ => ⟨hnone, buf, Or.inr ⟨hpc, ?_⟩⟩⟩
      obtain ⟨-, hlt, hget⟩ := h.at_get hpc huart
      exact ⟨hlt, Or.inl ⟨rfl, gotAt_return hget hret⟩⟩

/-! ## The ring and the stream -/

/-- The invariant of the call, `base` bytes having been taken before it. -/
structure RecvInv (maxLen : ℕ) (timeout : UInt32) (t0 base : ℕ) (s : Link) : Prop where
  recv : RecvAt maxLen timeout t0 s
  stream : StreamInv base s

theorem recvInv_step {base : ℕ} (s : Link) (a : LinkAct) (t : Link)
    (h : RecvInv maxLen timeout t0 base s) (hin : InRecv s a) (hstep : linkStep s a = some t) :
    RecvInv maxLen timeout t0 base t where
  recv := recvAt_step s a t h.recv h.stream.rx hin hstep
  stream := by
    refine streamInv_step s a t h.recv.wf h.stream hin.2.1 ⟨hin.2.2, fun _ hflush => ?_⟩ hstep
    exact absurd hflush (h.recv.not_flush _)

theorem recvInv_called {s : Link} (h : RecvCalled maxLen timeout s) :
    RecvInv maxLen timeout s.uart.now s.uart.rx.taken s where
  recv := by
    refine ⟨le_rfl, fun hidle => ?_, fun _ => ⟨h.returned, [], Or.inl ⟨h.pc, h.uart_pc⟩⟩⟩
    rw [h.pc] at hidle
    cases hidle
  stream := by
    refine ⟨?_, le_rfl, ?_⟩
    · rw [h.uart_pc]
      exact h.ring
    · rw [List.drop_eq_nil_of_le (List.length_take_le _ _)]
      unfold Link.delivered Link.copied
      rw [h.pc, h.returned]
      rfl

/-- When the call has returned, what it returned and what is pending is what was
received and not taken before. -/
theorem RecvInv.fifo {base : ℕ} {s : Link} (h : RecvInv maxLen timeout t0 base s)
    (hidle : s.pc = .idle) :
    s.returned ++ s.uart.rx.buf.pending = s.uart.rx.received.drop base := by
  have hat : RxAt s.uart.rx 0 0 := by
    have hrx := h.stream.rx
    rw [(h.recv.idle hidle).1] at hrx
    exact hrx
  have hbase : base ≤ (s.uart.rx.received.take s.uart.rx.taken).length := by
    have hle := h.stream.base_le
    have htaken := hat.holds.taken_le
    rw [List.length_take]
    omega
  rw [pending_eq_drop hat, ← delivered_idle hidle, h.stream.delivered,
    ← List.drop_append_of_le_length hbase, List.take_append_drop]

/-! ## How much is copied -/

/-- What a call of `UartGetData` is to return, as far as it has decided. -/
def GetPc.planned : GetPc → ℕ
  | .head n out => out.length + n
  | .dataLoad n out _ => out.length + n + 1
  | .rdLoad n out => out.length + n
  | .rdStore n out _ => out.length + n
  | .pendLoad n out => out.length + n
  | .pendStore n out _ => out.length + n
  | _ => 0

/-- The same after its return. -/
def Link.planned (s : Link) : ℕ :=
  match s.pc, s.uart.pc with
  | .recvGot _ _, .get p => p.planned
  | .recvGot _ _, _ => (s.uart.got.getD []).length
  | _, _ => 0

/-- How many bytes are or will be in the buffer of the caller. -/
def Link.promised (s : Link) : ℕ := s.returned.length + s.pc.buf.length + s.planned

theorem out_le_planned (p : GetPc) : p.out.length ≤ p.planned := by
  cases p with
  | head n out => exact Nat.le_add_right _ _
  | dataLoad n out r => exact (Nat.le_add_right _ _).trans (Nat.le_succ _)
  | rdLoad n out => exact Nat.le_add_right _ _
  | rdStore n out r => exact Nat.le_add_right _ _
  | pendLoad n out => exact Nat.le_add_right _ _
  | pendStore n out p => exact Nat.le_add_right _ _
  | _ => exact Nat.zero_le _

theorem delivered_le_promised (s : Link) : s.delivered.length ≤ s.promised := by
  have hcopied : s.copied.length ≤ s.planned := by
    unfold Link.copied Link.planned
    cases s.pc with
    | recvGot c buf =>
        cases s.uart.pc with
        | get p => exact out_le_planned p
        | _ => exact le_rfl
    | _ => exact le_rfl
  unfold Link.delivered Link.promised
  rw [List.length_append, List.length_append]
  omega

/-- Only the two points at which `data_len` is decided plan anything. -/
theorem planned_next {curTime : UInt32} {rx : RxSide} {p p' : GetPc}
    (hret : (getNext curTime rx p).2 = .inl p') :
    (p ≠ .clamp ∧ p'.planned = p.planned) ∨
      (∃ len, p = .ifMore len ∧ p'.planned ≤ len ∧ p.planned = 0) ∨
      (p = .clamp ∧ p'.planned = rx.buf.pendingBytes ∧ p.planned = 0) := by
  cases p with
  | start len timeout =>
      cases hret
      exact Or.inl ⟨GetPc.noConfusion, rfl⟩
  | ifEmpty len timeout waitStart =>
      simp only [getNext, Sum.inl.injEq] at hret
      subst hret
      split <;> exact Or.inl ⟨GetPc.noConfusion, rfl⟩
  | whileEmpty len timeout waitStart =>
      simp only [getNext, Sum.inl.injEq] at hret
      subst hret
      split <;> exact Or.inl ⟨GetPc.noConfusion, rfl⟩
  | waited len timeout waitStart =>
      simp only [getNext] at hret
      split at hret <;> cases hret
      exact Or.inl ⟨GetPc.noConfusion, rfl⟩
  | ifMore len =>
      simp only [getNext, Sum.inl.injEq] at hret
      subst hret
      refine Or.inr (Or.inl ⟨len, rfl, ?_, rfl⟩)
      split
      · exact Nat.zero_le _
      · exact (Nat.zero_add len).le
  | clamp =>
      cases hret
      exact Or.inr (Or.inr ⟨rfl, Nat.zero_add _, rfl⟩)
  | head n out =>
      cases n with
      | zero => cases hret
      | succ n =>
          cases hret
          exact Or.inl ⟨GetPc.noConfusion, rfl⟩
  | dataLoad n out r =>
      cases hret
      refine Or.inl ⟨GetPc.noConfusion, ?_⟩
      show (out ++ [rx.buf.data r]).length + n = out.length + n + 1
      rw [List.length_append, List.length_singleton]
      omega
  | rdLoad n out =>
      cases hret
      exact Or.inl ⟨GetPc.noConfusion, rfl⟩
  | rdStore n out r =>
      cases hret
      exact Or.inl ⟨GetPc.noConfusion, rfl⟩
  | pendLoad n out =>
      cases hret
      exact Or.inl ⟨GetPc.noConfusion, rfl⟩
  | pendStore n out p =>
      cases hret
      exact Or.inl ⟨GetPc.noConfusion, rfl⟩

theorem planned_return {curTime : UInt32} {rx : RxSide} {p : GetPc} {out : Option (List UInt8)}
    (hret : (getNext curTime rx p).2 = .inr out) : (out.getD []).length = p.planned := by
  cases p with
  | waited len timeout waitStart =>
      simp only [getNext] at hret
      split at hret <;> cases hret
      rfl
  | head n out =>
      cases n with
      | zero =>
          cases hret
          rfl
      | succ n => cases hret
  | _ => cases hret

theorem promised_get {s : Link} {c : RecvCall} {buf : List UInt8} {p : GetPc}
    (hpc : s.pc = .recvGot c buf) (huart : s.uart.pc = .get p) (hnone : s.returned = []) :
    s.promised = buf.length + p.planned := by
  unfold Link.promised Link.planned
  rw [hpc, huart, hnone]
  exact congrArg (· + p.planned) (Nat.zero_add _)

/-- **The demand of the assignment under the test**: what is promised stays within
the buffer if and only if the count it loads fits. -/
theorem promised_step {base : ℕ} (s : Link) (a : LinkAct) (t : Link)
    (h : RecvInv maxLen timeout t0 base s) (hin : InRecv s a) (hstep : linkStep s a = some t) :
    t.promised ≤ maxLen ↔ s.promised ≤ maxLen ∧ ClampFits s a := by
  -- nowhere else does a step demand anything
  have hkeep : t.promised = s.promised → ¬ (a = .next ∧ s.uart.pc = .get .clamp) →
      (t.promised ≤ maxLen ↔ s.promised ≤ maxLen ∧ ClampFits s a) := by
    intro hsame hnot
    rw [hsame, and_iff_left]
    exact fun ha hclamp => absurd ⟨ha, hclamp⟩ hnot
  cases recvStep_cases h.recv hin.1 hstep with
  | elapse d => exact hkeep rfl fun hnot => LinkAct.noConfusion hnot.1
  | rxIrq b => exact hkeep rfl fun hnot => LinkAct.noConfusion hnot.1
  | txIrq => exact hkeep rfl fun hnot => LinkAct.noConfusion hnot.1
  | expired buf hpc huart hexpired =>
      refine hkeep ?_ (by simp [huart])
      simp [Link.promised, Link.planned, LinkPc.buf, hpc]
  | full buf hpc huart hfull =>
      refine hkeep ?_ (by simp [huart])
      simp [Link.promised, Link.planned, LinkPc.buf, hpc]
  | ask buf hpc huart hlt hleft =>
      refine hkeep ?_ (by simp [huart])
      simp [Link.promised, Link.planned, LinkPc.buf, GetPc.planned, hpc]
  | gotNone buf hpc huart hgot =>
      refine hkeep ?_ (by simp [huart])
      simp [Link.promised, Link.planned, LinkPc.buf, hpc, huart, hgot]
  | gotSome buf out hpc huart hgot hout =>
      refine hkeep ?_ (by simp [huart])
      simp [Link.promised, Link.planned, LinkPc.buf, hpc, huart, hgot, Nat.add_assoc]
  | get buf p p' hpc huart hret =>
      obtain ⟨hnone, hlt, hget⟩ := h.recv.at_get hpc huart
      have hs := promised_get hpc huart hnone
      have hasked := asked_recvGot hpc
      have ht : Link.promised { s with uart := { s.uart with
          rx := (getNext (stamp s.uart.now) s.uart.rx p).1, pc := .get p' } } =
          buf.length + p'.planned := promised_get hpc rfl hnone
      rcases planned_next hret with ⟨hclamp, hsame⟩ | ⟨len, rfl, hle, hzero⟩ | ⟨rfl, hload, hzero⟩
      · refine hkeep (by rw [ht, hs, hsame]) ?_
        exact fun hnot => hclamp (UartPc.get.inj (huart.symm.trans hnot.2))
      · have hlen : len = min (maxLen - buf.length) 256 := hget.1.trans hasked
        rw [ht, hs, hzero]
        refine iff_of_true (by omega) ⟨by omega, fun _ hclamp => ?_⟩
        rw [huart] at hclamp
        cases hclamp
      · have hat : RxAt s.uart.rx 0 0 := getInv_of_pc h.stream.rx huart
        have hpending := hat.pending_eq
        have hfits := hat.holds.fits
        have hcond : ClampFits s .next ↔ s.uart.rx.buf.pendingBytes ≤ s.pc.asked :=
          ⟨fun hfit => hfit rfl huart, fun hfit _ _ => hfit⟩
        rw [ht, hs, hload, hzero, hcond, hasked]
        show _ ↔ _ ∧ _ ≤ min (maxLen - buf.length) 256
        omega
  | ret buf p out hpc huart hret =>
      obtain ⟨hnone, hlt, hget⟩ := h.recv.at_get hpc huart
      have hs := promised_get hpc huart hnone
      refine hkeep ?_ ?_
      · rw [hs, ← planned_return hret]
        simp [Link.promised, Link.planned, LinkPc.buf, hpc, hnone]
      · rintro ⟨-, hclamp⟩
        rw [huart] at hclamp
        cases hclamp
        cases hret

/-! ## How long the call lasts -/

/-- More than the accesses of a call of `UartGetData`, its waiting apart. -/
abbrev callSteps : ℕ := 2000

/-- The accesses left in a call of `UartGetData` and after it, with `filled` bytes
in the buffer before it, if it waits no more. -/
def GetPc.rank (maxLen filled : ℕ) : GetPc → ℕ
  | .start _ _ => callSteps * (maxLen - filled)
  | .ifEmpty _ _ _ => callSteps * (maxLen - filled) - 1
  | .whileEmpty _ _ _ => callSteps * (maxLen - filled) - 2
  | .waited _ _ _ => callSteps * (maxLen - filled) - 3
  | .ifMore _ => callSteps * (maxLen - filled) - 4
  | .clamp => callSteps * (maxLen - filled) - 5
  | .head n out => callSteps * (maxLen - (filled + (out.length + n))) + 6 * n + 3
  | .dataLoad n out _ => callSteps * (maxLen - (filled + (out.length + n + 1))) + 6 * n + 8
  | .rdLoad n out => callSteps * (maxLen - (filled + (out.length + n))) + 6 * n + 7
  | .rdStore n out _ => callSteps * (maxLen - (filled + (out.length + n))) + 6 * n + 6
  | .pendLoad n out => callSteps * (maxLen - (filled + (out.length + n))) + 6 * n + 5
  | .pendStore n out _ => callSteps * (maxLen - (filled + (out.length + n))) + 6 * n + 4

/-- The same after its return. -/
def gotRank (maxLen filled : ℕ) : Option (List UInt8) → ℕ
  | none => 1
  | some out => callSteps * (maxLen - (filled + out.length)) + 2

def Link.rank (s : Link) : ℕ :=
  match s.pc, s.uart.pc with
  | .recvLoop c buf, _ => callSteps * (c.maxLen - buf.length) + 1
  | .recvGot c buf, .get p => p.rank c.maxLen buf.length
  | .recvGot c buf, _ => gotRank c.maxLen buf.length s.uart.got
  | _, _ => 0

theorem getRank_next {now asked filled w : ℕ} {rx : RxSide} {p p' : GetPc}
    (hw : ∀ len left waitStart, p = .waited len left waitStart →
      stamp now - waitStart < left → 2 ≤ w)
    (h : GetAt timeout t0 asked now rx p) (hinv : GetInv rx p) (hlt : filled < maxLen)
    (hasked : asked = min (maxLen - filled) CIRCULAR_BUF_SIZE)
    (hret : (getNext (stamp now) rx p).2 = .inl p') :
    1 + p'.rank maxLen filled ≤ p.rank maxLen filled + w := by
  -- only in the wait the rank does not go down by itself
  have hdown : ∀ {m n : ℕ}, 1 + m ≤ n → 1 + m ≤ n + w := fun hle => Nat.le_add_right_of_le hle
  cases p with
  | start len left =>
      cases hret
      refine hdown ?_
      show 1 + (2000 * (maxLen - filled) - 1) ≤ 2000 * (maxLen - filled)
      omega
  | ifEmpty len left waitStart =>
      simp only [getNext, Sum.inl.injEq] at hret
      subst hret
      refine hdown ?_
      split
      · show 1 + (2000 * (maxLen - filled) - 2) ≤ 2000 * (maxLen - filled) - 1
        omega
      · show 1 + (2000 * (maxLen - filled) - 4) ≤ 2000 * (maxLen - filled) - 1
        omega
  | whileEmpty len left waitStart =>
      simp only [getNext, Sum.inl.injEq] at hret
      subst hret
      refine hdown ?_
      split
      · show 1 + (2000 * (maxLen - filled) - 3) ≤ 2000 * (maxLen - filled) - 2
        omega
      · show 1 + (2000 * (maxLen - filled) - 4) ≤ 2000 * (maxLen - filled) - 2
        omega
  | waited len left waitStart =>
      simp only [getNext] at hret
      split at hret <;> cases hret
      rename_i hleft
      have htwo := hw len left waitStart rfl (UInt32.not_le.mp hleft)
      show 1 + (2000 * (maxLen - filled) - 2) ≤ 2000 * (maxLen - filled) - 3 + w
      omega
  | ifMore len =>
      simp only [getNext, Sum.inl.injEq] at hret
      subst hret
      have hlen : len = min (maxLen - filled) 256 := h.1.trans hasked
      refine hdown ?_
      split
      · show 1 + (2000 * (maxLen - filled) - 5) ≤ 2000 * (maxLen - filled) - 4
        omega
      · show 1 + (2000 * (maxLen - (filled + (0 + len))) + 6 * len + 3) ≤
          2000 * (maxLen - filled) - 4
        omega
  | clamp =>
      cases hret
      have hat : RxAt rx 0 0 := hinv
      have hpending := hat.pending_eq
      have hfits := hat.holds.fits
      have hpos : 0 < rx.buf.pendingBytes := h
      refine hdown ?_
      show 1 + (2000 * (maxLen - (filled + (0 + rx.buf.pendingBytes))) +
        6 * rx.buf.pendingBytes + 3) ≤ 2000 * (maxLen - filled) - 5
      omega
  | head n out =>
      cases n with
      | zero => cases hret
      | succ n =>
          cases hret
          refine hdown ?_
          show 1 + (2000 * (maxLen - (filled + (out.length + n + 1))) + 6 * n + 8) ≤
            2000 * (maxLen - (filled + (out.length + (n + 1)))) + 6 * (n + 1) + 3
          omega
  | dataLoad n out r =>
      cases hret
      refine hdown ?_
      show 1 + (2000 * (maxLen - (filled + ((out ++ [rx.buf.data r]).length + n))) + 6 * n + 7) ≤
        2000 * (maxLen - (filled + (out.length + n + 1))) + 6 * n + 8
      rw [List.length_append, List.length_singleton]
      omega
  | rdLoad n out =>
      cases hret
      exact hdown (Nat.add_comm _ _).le
  | rdStore n out r =>
      cases hret
      exact hdown (Nat.add_comm _ _).le
  | pendLoad n out =>
      cases hret
      exact hdown (Nat.add_comm _ _).le
  | pendStore n out p =>
      cases hret
      exact hdown (Nat.add_comm _ _).le

theorem getRank_return {now filled : ℕ} {rx : RxSide} {p : GetPc} {out : Option (List UInt8)}
    (hlt : filled < maxLen) (hret : (getNext (stamp now) rx p).2 = .inr out) :
    1 + gotRank maxLen filled out ≤ p.rank maxLen filled := by
  cases p with
  | waited len left waitStart =>
      simp only [getNext] at hret
      split at hret <;> cases hret
      show 1 + 1 ≤ 2000 * (maxLen - filled) - 3
      omega
  | head n out =>
      cases n with
      | zero =>
          cases hret
          exact (Nat.add_comm _ _).le
      | succ n => cases hret
  | _ => cases hret

/-- Each step of the main line uses up one of the accesses left, unless it finds
time left in the wait. -/
theorem rank_step {base : ℕ} (s : Link) (a : LinkAct) (t : Link)
    (h : RecvInv maxLen timeout t0 base s) (hin : InRecv s a) (hstep : linkStep s a = some t) :
    (if a = .next then 1 else 0) + t.rank ≤ s.rank + waits s a := by
  have hzero : ∀ {m n : ℕ}, m = n → (if a = .next then 1 else 0) = 0 →
      (if a = .next then 1 else 0) + m ≤ n + waits s a := by
    intro m n hsame hcost
    rw [hcost, hsame, Nat.zero_add]
    exact Nat.le_add_right _ _
  cases recvStep_cases h.recv hin.1 hstep with
  | elapse d => exact hzero rfl rfl
  | rxIrq b => exact hzero rfl rfl
  | txIrq => exact hzero rfl rfl
  | expired buf hpc huart hexpired =>
      simp only [Link.rank, hpc, if_true]
      omega
  | full buf hpc huart hfull =>
      simp only [Link.rank, hpc, if_true]
      omega
  | ask buf hpc huart hlt hleft =>
      simp only [Link.rank, GetPc.rank, hpc, if_true]
      omega
  | gotNone buf hpc huart hgot =>
      simp only [Link.rank, gotRank, hpc, huart, hgot, if_true]
      omega
  | gotSome buf out hpc huart hgot hout =>
      simp only [Link.rank, gotRank, hpc, huart, hgot, if_true, List.length_append]
      omega
  | get buf p p' hpc huart hret =>
      obtain ⟨-, hlt, hget⟩ := h.recv.at_get hpc huart
      have hw : ∀ len left waitStart, p = .waited len left waitStart →
          stamp s.uart.now - waitStart < left → 2 ≤ waits s .next := by
        rintro len left waitStart rfl hleft
        have hwaits : Waits s .next := by
          refine ⟨rfl, ?_⟩
          rw [huart]
          exact hleft
        rw [waits, if_pos hwaits]
      have hrank := getRank_next hw hget (getInv_of_pc h.stream.rx huart) hlt
        (asked_recvGot hpc) hret
      simp only [Link.rank, hpc, huart, if_true]
      exact hrank
  | ret buf p out hpc huart hret =>
      obtain ⟨-, hlt, -⟩ := h.recv.at_get hpc huart
      have hrank := getRank_return hlt hret
      simp only [Link.rank, hpc, huart, if_true]
      exact hrank.trans (Nat.le_add_right _ _)

/-- While the call has not returned, it can go on. -/
theorem recv_goes_on {s : Link} (h : RecvAt maxLen timeout t0 s) (hbusy : s.pc ≠ .idle) :
    ∃ t, linkStep s .next = some t := by
  obtain ⟨-, buf, ⟨hpc, huart⟩ | ⟨hpc, -, ⟨huart, -⟩ | ⟨p, huart, -⟩⟩⟩ := h.busy hbusy
  · simp only [linkStep, huart, if_true, callerNext, hpc, uartStep, Option.map_some]
    split
    · split <;> exact ⟨_, rfl⟩
    · exact ⟨_, rfl⟩
  · simp only [linkStep, huart, if_true, callerNext, hpc]
    cases s.uart.got with
    | none => exact ⟨_, rfl⟩
    | some out => cases out <;> exact ⟨_, rfl⟩
  · simp only [linkStep, uartStep, uartNext, huart, reduceCtorEq, if_false]
    cases (getNext (stamp s.uart.now) s.uart.rx p).2 <;> exact ⟨_, rfl⟩

/-! ## Runs -/

theorem returnCode_eq {n : ℕ} (h : n < 2 ^ 31) : returnCode n = n := by
  rw [returnCode, BitVec.toInt_eq_toNat_of_lt] <;> rw [BitVec.toNat_ofNat]
  · rw [Nat.mod_eq_of_lt (by omega)]
  · omega

/-- **One reception.** However bytes arrive, with never more than 256 unread and
none inside `pendingBytes--`, and however time passes, a call of `SerialRecv` that
has returned did what it is to do if and only if each load of the count that
limits `data_len` found at most `data_len`. Until it returns it can go on, and
apart from the checks that find time left its steps are bounded. -/
theorem serialRecv_exact_iff (start : Link) (maxLen : ℕ) (timeout : UInt32)
    (hstart : RecvCalled maxLen timeout start) (hmax : maxLen < 2 ^ 31)
    (acts : List LinkAct) (s : Link) (hin : Along linkStep InRecv start acts)
    (hrun : run linkStep start acts = some s) :
    (s.pc = .idle →
      (RecvExact maxLen timeout start acts s ↔ Along linkStep ClampFits start acts)) ∧
    (s.pc ≠ .idle → ∃ t, linkStep s .next = some t) ∧
    acts.count .next ≤ callSteps * maxLen + 1 + total linkStep waits start acts := by
  have hinit := recvInv_called hstart
  have hinv : RecvInv maxLen timeout start.uart.now start.uart.rx.taken s :=
    run_inv_of_along recvInv_step hinit hin hrun
  have hpromised : start.promised = 0 := by
    simp [Link.promised, Link.planned, LinkPc.buf, hstart.pc, hstart.returned]
  have hiff : ∀ {u : Link} {as : List LinkAct}, Along linkStep InRecv start as →
      run linkStep start as = some u →
      (u.promised ≤ maxLen ↔ Along linkStep ClampFits start as) := fun hD hu =>
    iff_along_of_along recvInv_step promised_step hinit (hpromised ▸ Nat.zero_le _) hD hu
  refine ⟨fun hidle => ⟨fun hexact => ?_, fun hfits => ?_⟩, recv_goes_on hinv.recv, ?_⟩
  · refine (hiff hin hrun).mp ?_
    have hlen : s.delivered.length ≤ maxLen :=
      hexact.in_buffer acts [] s (List.append_nil _).symm hrun
    rw [delivered_idle hidle] at hlen
    simpa [Link.promised, Link.planned, LinkPc.buf, hidle] using hlen
  · have hbuffer : Throughout linkStep (fun u => u.delivered.length ≤ maxLen) start acts := by
      rintro pre post u rfl hu
      exact (delivered_le_promised u).trans ((hiff hin.of_append hu).mpr hfits.of_append)
    have hlen : s.returned.length ≤ maxLen := by
      rw [← delivered_idle hidle]
      exact hbuffer acts [] s (List.append_nil _).symm hrun
    refine ⟨hbuffer, hinv.fifo hidle, ?_, (hinv.recv.idle hidle).2⟩
    exact returnCode_eq (hlen.trans_lt hmax)
  · have hrank : start.rank = callSteps * maxLen + 1 := by
      simp [Link.rank, hstart.pc]
    have htotal := total_le_of_along recvInv_step rank_step hinit hin hrun
    rw [total_count .next hrun, hrank] at htotal
    omega

/-! Two runs of a call that asks for two bytes, one of which has arrived. -/

def askedTwo : Link where
  uart := { rx := usart0RxIrqHandler {} 1 }
  pc := .recvLoop ⟨2, 1000, stamp 0⟩ []

/-- The second byte arrives while the first one is copied. -/
def recvTwoRun : List LinkAct :=
  List.replicate 8 .next ++ .rxIrq 2 :: List.replicate 18 .next

/-- Two bytes arrive between the test and the assignment under it. -/
def recvThreeRun : List LinkAct :=
  List.replicate 4 .next ++ .rxIrq 2 :: .rxIrq 3 :: List.replicate 22 .next

theorem recvTwoRun_result :
    (run linkStep askedTwo recvTwoRun).map (fun s => (s.pc, s.returned)) =
      some (.idle, [1, 2]) := by
  decide +kernel

theorem recvThreeRun_result :
    (run linkStep askedTwo recvThreeRun).map (fun s => (s.pc, s.returned)) =
      some (.idle, [1, 2, 3]) := by
  decide +kernel

theorem askedTwo_called : RecvCalled 2 1000 askedTwo where
  pc := rfl
  uart_pc := rfl
  ring := rxAt_init.rxIrq (by decide) (by decide) 1
  returned := rfl

/-- `InRecv` of a byte. -/
theorem inRecv_rxIrq (s : Link) (b : UInt8) : InRecv s (.rxIrq b) ↔ s.pc ≠ .idle ∧
    s.uart.rx.received.length < s.uart.rx.taken + 256 ∧ s.uart.pc.rxExposed = false := by
  simp [InRecv, LinkRoom]

instance (s : Link) (a : LinkAct) : Decidable (InRecv s a) :=
  match a with
  | .rxIrq b => decidable_of_iff _ (inRecv_rxIrq s b).symm
  | .elapse _ | .txIrq | .cellularRead _ _ | .cellularWrite _ | .next =>
      decidable_of_iff (s.pc ≠ .idle) (by simp [InRecv, LinkRoom])

instance (s : Link) (a : LinkAct) : Decidable (ClampFits s a) :=
  inferInstanceAs (Decidable (_ → _ → _))

/-- The call returns both bytes, in order. -/
theorem recvTwoRun_exact : ∃ s, run linkStep askedTwo recvTwoRun = some s ∧
    s.returned = [1, 2] ∧ RecvExact 2 1000 askedTwo recvTwoRun s ∧
    recvTwoRun.count .next ≤ callSteps * 2 + 1 + total linkStep waits askedTwo recvTwoRun := by
  obtain ⟨s, hrun, hs⟩ := Option.map_eq_some_iff.mp recvTwoRun_result
  simp only [Prod.mk.injEq] at hs
  obtain ⟨hidle, hreturned⟩ := hs
  obtain ⟨hiff, -, hcount⟩ := serialRecv_exact_iff askedTwo 2 1000 askedTwo_called (by decide)
    recvTwoRun s (by decide +kernel) hrun
  exact ⟨s, hrun, hreturned, (hiff hidle).mpr (by decide +kernel), hcount⟩

/-- The call returns three bytes for two. -/
theorem three_bytes_for_two : Along linkStep InRecv askedTwo recvThreeRun ∧
    ∃ s, run linkStep askedTwo recvThreeRun = some s ∧ s.pc = .idle ∧
      ¬ RecvExact 2 1000 askedTwo recvThreeRun s := by
  refine ⟨by decide +kernel, ?_⟩
  obtain ⟨s, hrun, hs⟩ := Option.map_eq_some_iff.mp recvThreeRun_result
  simp only [Prod.mk.injEq] at hs
  obtain ⟨hidle, hreturned⟩ := hs
  refine ⟨s, hrun, hidle, fun hexact => ?_⟩
  have hlen : s.delivered.length ≤ 2 :=
    hexact.in_buffer recvThreeRun [] s (List.append_nil _).symm hrun
  rw [delivered_idle hidle, hreturned] at hlen
  exact absurd hlen (by decide)

end SmartDoorLock
