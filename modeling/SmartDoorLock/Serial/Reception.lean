import SmartDoorLock.Serial.Stream

/-!
# Reception beyond the end of the ring

Runs of the UART in which `UartGetData` and `SerialFlushInputBuff` are called in
any order while bytes arrive. Beside the UART a state keeps what the calls of
`UartGetData` have returned, before and after the last flush, and where in the
received bytes that flush stands.

The receive handler stores and counts a byte whether or not there is room for
it; `overflow` is set and read by nobody. From 257 unread bytes on the count is
more than the ring holds, the newest byte stands in the place of the oldest one,
and the next `UartGetData` hands it out first. A flush stores its count last, and
a byte that comes in between is in the ring and not counted.
-/

namespace SmartDoorLock

open Machine WrapClock

/-! ## The property and the conditions -/

structure Reception where
  uart : Uart := {}
  /-- how many bytes were received before the last flush -/
  base : ℕ := 0
  /-- what was returned before the last flush -/
  before : List UInt8 := []
  /-- what was returned since -/
  returned : List UInt8 := []

/-- What a step of the UART from `u` to `v` returns to the caller. -/
def handedOut (u v : Uart) : List UInt8 :=
  match u.pc, v.pc with
  | .get _, .idle => v.got.getD []
  | _, _ => []

/-- A flush begins with its load of `wrI`. -/
def receptionStep (s : Reception) (a : UartAct) : Option Reception :=
  (uartStep s.uart a).map fun uart =>
    if s.uart.pc = .flush .wrLoad ∧ a = .next then
      { uart := uart
        base := s.uart.rx.received.length
        before := s.before ++ s.returned
        returned := [] }
    else { s with uart := uart, returned := s.returned ++ handedOut s.uart uart }

/-- The count is at most what the ring holds, the bytes returned are some of
those received, in this order, and between two calls every byte received since
the last flush is returned or pending, unless `overflow` is set. -/
structure ReceivedOnce (s : Reception) : Prop where
  pending_le : s.uart.rx.buf.pendingBytes ≤ CIRCULAR_BUF_SIZE
  subsequence : (s.before ++ s.returned).Sublist s.uart.rx.received
  none_lost : s.uart.pc = .idle → s.uart.rx.buf.overflow = false →
    s.returned ++ s.uart.rx.buf.pending = s.uart.rx.received.drop s.base

/-- A byte that arrives finds room by the count. -/
def RoomCounted (s : Reception) (a : UartAct) : Prop :=
  ∀ b, a = .rxIrq b → s.uart.rx.buf.pendingBytes < CIRCULAR_BUF_SIZE

/-- No byte arrives inside `pendingBytes--`, nor while a flush has loaded `wrI`
and not yet stored the count. -/
def ApartFromStores (s : Reception) (a : UartAct) : Prop :=
  ∀ b, a = .rxIrq b → s.uart.pc.rxExposed = false

/-! ## The invariant -/

/-- What the call of `UartGetData` in progress has copied. -/
def UartPc.out : UartPc → List UInt8
  | .get p => p.out
  | _ => []

structure InOrder (s : Reception) : Prop where
  rx : RxInv s.uart.rx s.uart.pc
  pending_le : s.uart.rx.buf.pendingBytes ≤ CIRCULAR_BUF_SIZE
  base_le : s.base ≤ s.uart.rx.taken
  before : s.before.Sublist (s.uart.rx.received.take s.base)
  copied : s.returned ++ s.uart.pc.out = (s.uart.rx.received.take s.uart.rx.taken).drop s.base

theorem inOrder_init : InOrder {} where
  rx := rxAt_init
  pending_le := Nat.zero_le _
  base_le := le_rfl
  before := List.Sublist.slnil
  copied := rfl

/-- What was returned before and since the last flush is part of what was taken. -/
theorem InOrder.all_copied {s : Reception} (h : InOrder s) :
    (s.before ++ (s.returned ++ s.uart.pc.out)).Sublist
      (s.uart.rx.received.take s.uart.rx.taken) := by
  have htake : s.uart.rx.received.take s.base =
      (s.uart.rx.received.take s.uart.rx.taken).take s.base := by
    rw [List.take_take, Nat.min_eq_left h.base_le]
  have hbefore := h.before
  rw [htake] at hbefore
  have hall := hbefore.append (List.Sublist.refl (s.returned ++ s.uart.pc.out))
  rwa [h.copied, List.take_append_drop, ← h.copied] at hall

theorem InOrder.receivedOnce {s : Reception} (h : InOrder s) : ReceivedOnce s := by
  refine ⟨h.pending_le, ?_, ?_⟩
  · have hsub : (s.before ++ s.returned).Sublist (s.before ++ (s.returned ++ s.uart.pc.out)) := by
      rw [← List.append_assoc]
      exact List.sublist_append_left _ _
    exact (hsub.trans h.all_copied).trans (List.take_sublist _ _)
  · intro hidle _
    have hrx := h.rx
    have hcopied := h.copied
    rw [hidle] at hrx hcopied
    have hat : RxAt s.uart.rx 0 0 := hrx
    have hbase : s.base ≤ (s.uart.rx.received.take s.uart.rx.taken).length := by
      have hle := h.base_le
      have htaken := hat.holds.taken_le
      rw [List.length_take]
      omega
    have hreturned : s.returned = (s.uart.rx.received.take s.uart.rx.taken).drop s.base := by
      rw [← hcopied]
      exact (List.append_nil _).symm
    rw [hreturned, pending_eq_drop hat, ← List.drop_append_of_le_length hbase,
      List.take_append_drop]

/-! ## One step -/

theorem handedOut_of_pc {u v : Uart} (h : v.pc = u.pc) : handedOut u v = [] := by
  unfold handedOut
  rw [h]
  cases u.pc <;> rfl

theorem handedOut_idle {u v : Uart} (h : u.pc = .idle) : handedOut u v = [] := by
  unfold handedOut
  rw [h]

theorem InOrder.none_out {s : Reception} {uart : Uart} (h : InOrder { s with uart := uart })
    (hnone : handedOut s.uart uart = []) :
    InOrder { s with uart := uart, returned := s.returned ++ handedOut s.uart uart } := by
  rw [hnone, List.append_nil]
  exact h

/-- A step that takes, copies and returns nothing. -/
theorem InOrder.quiet {s : Reception} (h : InOrder s) (uart : Uart) (hrx : RxInv uart.rx uart.pc)
    (hpending : uart.rx.buf.pendingBytes ≤ CIRCULAR_BUF_SIZE)
    (hreceived : uart.rx.received = s.uart.rx.received) (htaken : uart.rx.taken = s.uart.rx.taken)
    (hout : uart.pc.out = s.uart.pc.out) : InOrder { s with uart := uart } where
  rx := hrx
  pending_le := hpending
  base_le := by
    rw [htaken]
    exact h.base_le
  before := by
    rw [hreceived]
    exact h.before
  copied := by
    rw [hout, hreceived, htaken]
    exact h.copied

theorem out_atStart {pc : UartPc} (h : pc.atStart = true) : pc.out = [] := by
  cases pc with
  | get p => cases p <;> first | rfl | exact Bool.noConfusion h
  | _ => rfl

/-- By the count there is room, so there is room in the ring. -/
theorem RxInv.room {rx : RxSide} {pc : UartPc} (h : RxInv rx pc) (hapart : pc.rxExposed = false)
    (hcount : rx.buf.pendingBytes < 256) : rx.received.length < rx.taken + 256 := by
  obtain ⟨rdLag, pendLag, hlag, hat⟩ := h.apart hapart
  have hpending := hat.pending_eq
  omega

theorem inOrder_rxIrq {s : Reception} (h : InOrder s) {b : UInt8}
    (hroom : s.uart.rx.buf.pendingBytes < CIRCULAR_BUF_SIZE)
    (hapart : s.uart.pc.rxExposed = false) :
    InOrder { s with uart := { s.uart with rx := usart0RxIrqHandler s.uart.rx b } } where
  rx := rxInv_rxIrq h.rx (h.rx.room hapart hroom) hapart b
  pending_le := by
    have hlt : s.uart.rx.buf.pendingBytes < 256 := hroom
    show inc32 s.uart.rx.buf.pendingBytes ≤ 256
    rw [inc32_eq (by omega)]
    omega
  base_le := h.base_le
  before := by
    show s.before.Sublist ((s.uart.rx.received ++ [b]).take s.base)
    rw [List.take_append_of_le_length (h.base_le.trans h.rx.holds.taken_le)]
    exact h.before
  copied := by
    show s.returned ++ s.uart.pc.out =
      ((s.uart.rx.received ++ [b]).take s.uart.rx.taken).drop s.base
    rw [List.take_append_of_le_length h.rx.holds.taken_le]
    exact h.copied

/-- `UartGetData` never counts up. -/
theorem getNext_pending_le {rx : RxSide} {p : GetPc} (h : GetInv rx p) (curTime : UInt32) :
    (getNext curTime rx p).1.buf.pendingBytes ≤ rx.buf.pendingBytes := by
  cases p with
  | head n out => cases n <;> exact le_rfl
  | pendStore n out p =>
      obtain ⟨⟨hat, -⟩, rfl⟩ := h
      have hpending := hat.pending_eq
      have htaken := hat.holds.taken_le
      show dec32 rx.buf.pendingBytes ≤ rx.buf.pendingBytes
      rw [dec32_eq (by omega)]
      exact Nat.sub_le _ _
  | _ => exact le_rfl

theorem flushNext_pending_le (rx : RxSide) (p : FlushPc) :
    (flushNext rx p).1.buf.pendingBytes ≤ rx.buf.pendingBytes := by
  cases p with
  | pendStore => exact Nat.zero_le _
  | _ => exact le_rfl

/-- An access of `UartGetData`, up to its return. -/
theorem inOrder_get {s : Reception} (h : InOrder s) {p p' : GetPc} (hpc : s.uart.pc = .get p)
    (hret : (getNext (stamp s.uart.now) s.uart.rx p).2 = .inl p') {uart : Uart}
    (hrx : RxInv uart.rx uart.pc) (huart : uart = { s.uart with
      rx := (getNext (stamp s.uart.now) s.uart.rx p).1, pc := .get p' }) :
    InOrder { s with uart := uart } := by
  have hget : GetInv s.uart.rx p := by
    have hinv := h.rx
    rw [hpc] at hinv
    exact hinv
  have hpending : uart.rx.buf.pendingBytes ≤ CIRCULAR_BUF_SIZE := by
    rw [huart]
    exact (getNext_pending_le hget _).trans h.pending_le
  have hreceived : uart.rx.received = s.uart.rx.received := by
    rw [huart]
    exact getNext_received _ _ p
  have hcopied := h.copied
  rw [hpc] at hcopied
  rcases getNext_copied hget hret with ⟨hout, htaken⟩ | ⟨hlt, hout, htaken⟩
  · refine h.quiet _ hrx hpending hreceived (by rw [huart]; exact htaken) ?_
    rw [huart, hpc]
    exact hout
  · have htaken' : uart.rx.taken = s.uart.rx.taken + 1 := by rw [huart]; exact htaken
    have hout' : uart.pc.out = p.out ++ [s.uart.rx.received[s.uart.rx.taken]] := by
      rw [huart]
      exact hout
    have hbase := h.base_le
    have hlen : s.base ≤ (s.uart.rx.received.take s.uart.rx.taken).length := by
      rw [List.length_take]
      omega
    refine ⟨hrx, hpending, ?_, ?_, ?_⟩
    · show s.base ≤ uart.rx.taken
      omega
    · rw [hreceived]
      exact h.before
    · rw [hout', hreceived, htaken', ← List.append_assoc]
      show s.returned ++ (UartPc.get p).out ++ _ = _
      rw [hcopied, List.take_succ_eq_append_getElem hlt, List.drop_append_of_le_length hlen]

/-- The return of `UartGetData`. -/
theorem inOrder_got {s : Reception} (h : InOrder s) {p : GetPc} {out : Option (List UInt8)}
    (hpc : s.uart.pc = .get p) (hret : (getNext (stamp s.uart.now) s.uart.rx p).2 = .inr out)
    {uart : Uart} (hrx : RxInv uart.rx uart.pc) (huart : uart = { s.uart with
      rx := (getNext (stamp s.uart.now) s.uart.rx p).1, pc := .idle, got := out }) :
    InOrder { s with uart := uart, returned := s.returned ++ handedOut s.uart uart } := by
  obtain ⟨hsame, hout, -, -⟩ := getNext_return hret
  have hcopied := h.copied
  rw [hpc] at hcopied
  have hrx' : uart.rx = s.uart.rx := by
    rw [huart]
    exact hsame
  have hpc' : uart.pc = .idle := by rw [huart]
  have hhanded : handedOut s.uart uart = p.out := by
    unfold handedOut
    rw [hpc, hpc', ← hout, huart]
  refine ⟨hrx, ?_, ?_, ?_, ?_⟩
  · rw [hrx']
    exact h.pending_le
  · rw [hrx']
    exact h.base_le
  · rw [hrx']
    exact h.before
  · rw [hrx', hhanded, hpc', ← hcopied]
    exact List.append_nil _

/-- An access of the main line that does not begin a flush. -/
theorem inOrder_next {s : Reception} (h : InOrder s) {uart : Uart}
    (hnext : uartNext s.uart = some uart) (hflush : s.uart.pc ≠ .flush .wrLoad) :
    InOrder { s with uart := uart, returned := s.returned ++ handedOut s.uart uart } := by
  have hrx : RxInv uart.rx uart.pc := rxInv_next h.rx hnext
  rcases uartNext_cases hnext with ⟨p, p', hpc, -, rfl⟩ | ⟨p, hpc, -, rfl⟩ |
    ⟨p, p', hpc, hret, rfl⟩ | ⟨p, out, hpc, hret, rfl⟩ | ⟨p, p', hpc, hret, rfl⟩ |
    ⟨p, hpc, hret, rfl⟩
  · refine (h.quiet _ hrx h.pending_le rfl rfl ?_).none_out ?_
    · rw [hpc]
      rfl
    · unfold handedOut
      rw [hpc]
  · refine (h.quiet _ hrx h.pending_le rfl rfl ?_).none_out ?_
    · rw [hpc]
      rfl
    · unfold handedOut
      rw [hpc]
  · refine (inOrder_get h hpc hret hrx rfl).none_out ?_
    unfold handedOut
    rw [hpc]
  · exact inOrder_got h hpc hret hrx rfl
  · have hpending := (flushNext_pending_le s.uart.rx p).trans h.pending_le
    refine (h.quiet _ hrx hpending ?_ ?_ ?_).none_out ?_
    · cases p <;> rfl
    · cases p with
      | wrLoad => exact absurd hpc hflush
      | _ => rfl
    · rw [hpc]
      rfl
    · unfold handedOut
      rw [hpc]
  · have hpending := (flushNext_pending_le s.uart.rx p).trans h.pending_le
    refine (h.quiet _ hrx hpending ?_ ?_ ?_).none_out ?_
    · cases p <;> rfl
    · cases p with
      | wrLoad => exact absurd hpc hflush
      | _ => rfl
    · rw [hpc]
      rfl
    · unfold handedOut
      rw [hpc]

/-- The beginning of a flush. -/
theorem inOrder_flush {s : Reception} (h : InOrder s) {uart : Uart}
    (hnext : uartNext s.uart = some uart) (hpc : s.uart.pc = .flush .wrLoad) :
    InOrder { uart := uart, base := s.uart.rx.received.length,
              before := s.before ++ s.returned, returned := [] } := by
  have hrx : RxInv uart.rx uart.pc := rxInv_next h.rx hnext
  have huart : uart = { s.uart with
      rx := (flushNext s.uart.rx .wrLoad).1, pc := .flush (.rdStore s.uart.rx.buf.wrI) } := by
    rw [uartNext, hpc] at hnext
    exact (Option.some.inj hnext).symm
  have hall := h.all_copied
  rw [hpc] at hall
  refine ⟨hrx, ?_, ?_, ?_, ?_⟩
  · rw [huart]
    exact h.pending_le
  · rw [huart]
    exact le_rfl
  · show (s.before ++ s.returned).Sublist (uart.rx.received.take s.uart.rx.received.length)
    rw [huart]
    show (s.before ++ s.returned).Sublist (s.uart.rx.received.take s.uart.rx.received.length)
    rw [List.take_length]
    rw [show s.returned ++ UartPc.out (.flush .wrLoad) = s.returned from List.append_nil _] at hall
    exact hall.trans (List.take_sublist _ _)
  · rw [huart]
    exact (List.drop_eq_nil_of_le (List.length_take_le _ _)).symm

theorem inOrder_step (s : Reception) (a : UartAct) (t : Reception) (h : InOrder s)
    (hcond : RoomCounted s a ∧ ApartFromStores s a) (hstep : receptionStep s a = some t) :
    InOrder t := by
  obtain ⟨uart, huart, ht⟩ := Option.map_eq_some_iff.mp hstep
  by_cases hflush : s.uart.pc = .flush .wrLoad ∧ a = .next
  · obtain ⟨hpc, rfl⟩ := hflush
    rw [if_pos ⟨hpc, rfl⟩] at ht
    exact ht ▸ inOrder_flush h huart hpc
  · rw [if_neg hflush] at ht
    subst ht
    -- a call begins, and nothing is handed out
    have hcall : s.uart.pc = .idle → ∀ pc : UartPc, pc.atStart = true →
        InOrder { s with uart := { s.uart with pc := pc },
                         returned := s.returned ++ handedOut s.uart { s.uart with pc := pc } } := by
      intro hidle pc hstart
      have hrx := h.rx
      rw [hidle] at hrx
      have hout : pc.out = s.uart.pc.out := by
        rw [hidle]
        exact out_atStart hstart
      exact (h.quiet { s.uart with pc := pc } (rxInv_atStart hrx hstart) h.pending_le rfl rfl
        hout).none_out (handedOut_idle hidle)
    cases a with
    | elapse d =>
        cases huart
        exact (h.quiet { s.uart with now := s.uart.now + d } h.rx h.pending_le rfl rfl
          rfl).none_out (handedOut_of_pc rfl)
    | rxIrq b =>
        cases huart
        exact (inOrder_rxIrq h (hcond.1 b rfl) (hcond.2 b rfl)).none_out (handedOut_of_pc rfl)
    | txIrq =>
        simp only [uartStep] at huart
        split at huart <;> cases huart
        exact (h.quiet { s.uart with tx := usart0TxIrqHandler s.uart.tx } h.rx h.pending_le rfl
          rfl rfl).none_out (handedOut_of_pc rfl)
    | callPut data =>
        simp only [uartStep] at huart
        split at huart <;> cases huart
        rename_i hidle
        split
        · exact InOrder.none_out h (handedOut_of_pc rfl)
        · exact hcall hidle _ rfl
    | callGet len timeout =>
        simp only [uartStep] at huart
        split at huart <;> cases huart
        rename_i hidle
        exact hcall hidle _ rfl
    | callFlush =>
        simp only [uartStep] at huart
        split at huart <;> cases huart
        rename_i hidle
        exact hcall hidle _ rfl
    | next => exact inOrder_next h huart fun hpc => hflush ⟨hpc, rfl⟩

/-! ## Runs -/

/-- A byte that finds the ring full by the count is counted beyond it. -/
theorem roomCounted_of_pending {s t : Reception} {a : UartAct}
    (hs : s.uart.rx.buf.pendingBytes ≤ CIRCULAR_BUF_SIZE)
    (ht : t.uart.rx.buf.pendingBytes ≤ CIRCULAR_BUF_SIZE) (hstep : receptionStep s a = some t) :
    RoomCounted s a := by
  rintro b rfl
  obtain ⟨uart, huart, heq⟩ := Option.map_eq_some_iff.mp hstep
  cases huart
  rw [if_neg (by simp)] at heq
  subst heq
  have hle : s.uart.rx.buf.pendingBytes ≤ 256 := hs
  have hinc : inc32 s.uart.rx.buf.pendingBytes ≤ 256 := ht
  rw [inc32_eq (by omega)] at hinc
  exact hinc

/-- **Reception, up to an overrun.** In every run in which each byte that
arrives finds at most 255 bytes counted, and none arrives while the main line is
about to store the count, the count stays within the ring, the bytes are
returned once and in order, and none is lost but by a flush. As far as no store
of the count is disturbed, this is so throughout a run only if no byte arrives
at a full ring. -/
theorem received_once_iff (acts : List UartAct) :
    (Along receptionStep (fun s a => RoomCounted s a ∧ ApartFromStores s a) {} acts →
      Throughout receptionStep ReceivedOnce {} acts) ∧
    (Along receptionStep ApartFromStores {} acts →
      (Throughout receptionStep ReceivedOnce {} acts ↔
        Along receptionStep RoomCounted {} acts)) := by
  have hsound : Along receptionStep (fun s a => RoomCounted s a ∧ ApartFromStores s a) {} acts →
      Throughout receptionStep ReceivedOnce {} acts := by
    intro hcond pre post u hsplit hrun
    exact (throughout_of_along inOrder_step inOrder_init hcond pre post u hsplit hrun).receivedOnce
  refine ⟨hsound, fun hapart => ⟨?_, fun hroom => hsound (hroom.and hapart)⟩⟩
  rintro hall pre a post u rfl hrun
  have hu := hall pre (a :: post) u rfl hrun
  cases hstep : receptionStep u a with
  | some t =>
      have ht := hall (pre ++ [a]) post t (by simp) (run_snoc_eq_some.mpr ⟨u, hrun, hstep⟩)
      exact roomCounted_of_pending hu.pending_le ht.pending_le hstep
  | none =>
      rintro b rfl
      cases hstep

/-! Two runs on which bytes are repeated or lost. -/

/-- 257 bytes arrive, the last one a 1, and two are read. -/
def overrunRun : List UartAct :=
  List.replicate 256 (.rxIrq 0) ++ .rxIrq 1 :: .callGet 2 1000 :: List.replicate 16 .next

/-- A byte arrives while a flush has loaded `wrI`. -/
def flushedRun : List UartAct := [.callFlush, .next, .rxIrq 65, .next, .next, .next]

theorem overrunRun_result :
    (run receptionStep {} overrunRun).map
        (fun s => (s.before ++ s.returned, s.uart.rx.received)) =
      some ([1, 0], List.replicate 256 0 ++ [1]) := by
  decide +kernel

theorem flushedRun_result :
    (run receptionStep {} flushedRun).map
        (fun s => (s.uart.pc, s.uart.rx.buf.overflow,
          s.returned ++ s.uart.rx.buf.pending, s.uart.rx.received.drop s.base)) =
      some (.idle, false, [], [65]) := by
  decide +kernel

/-- The newest byte comes first, and a byte is lost without a sign of it. -/
theorem newest_first : ¬ Throughout receptionStep ReceivedOnce {} overrunRun ∧
    ¬ Throughout receptionStep ReceivedOnce {} flushedRun := by
  constructor
  · intro hall
    obtain ⟨s, hrun, hs⟩ := Option.map_eq_some_iff.mp overrunRun_result
    simp only [Prod.mk.injEq] at hs
    have hsub := (hall overrunRun [] s (List.append_nil _).symm hrun).subsequence
    rw [hs.1, hs.2] at hsub
    revert hsub
    decide +kernel
  · intro hall
    obtain ⟨s, hrun, hs⟩ := Option.map_eq_some_iff.mp flushedRun_result
    simp only [Prod.mk.injEq] at hs
    obtain ⟨hpc, hoverflow, hreturned, hreceived⟩ := hs
    have hlost := (hall flushedRun [] s (List.append_nil _).symm hrun).none_lost hpc hoverflow
    rw [hreturned, hreceived] at hlost
    cases hlost

end SmartDoorLock
