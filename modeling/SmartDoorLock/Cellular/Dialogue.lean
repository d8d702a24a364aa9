import SmartDoorLock.Cellular.Program
import SmartDoorLock.Lib.Line
import SmartDoorLock.Lib.Machine
import Mathlib.Data.List.Forall2

/-!
# Credit for the modem's replies

Commands and replies carry no identifier: what `SerialRecv` returns after a
command is what came over the line since the flush before it. The modem answers
every command, in order, and a reply may come after its `SerialRecv` has timed
out. A flush drops the part of it that has arrived; the part still under way
comes in front of the next reply and is read as one.

The line numbers the bytes by the command they answer, which the program does
not see.
-/

namespace SmartDoorLock

open CText

/-! ## The dialogue -/

/-- One exchange: what was under way at the flush, the number of the command,
the modem's reply to it, and what `SerialRecv` returned. -/
structure Exchange where
  late : List (ℕ × UInt8)
  command : ℕ
  reply : List UInt8
  got : List (ℕ × UInt8)
deriving DecidableEq, Repr

/-- A finished call: its result and its exchanges, the latest first. -/
structure CallRecord where
  call : ModemCall
  result : ℤ
  exchanges : List Exchange
deriving DecidableEq, Repr

structure Dialogue where
  line : Line UInt8 := {}
  transparentMode : Bool := false
  /-- the number of commands sent -/
  commands : ℕ := 0
  /-- the call in progress, and what is left of its program -/
  prog : Option (ModemCall × Serial ℤ) := none
  /-- what was under way at the last flush -/
  late : List (ℕ × UInt8) := []
  /-- the reply to the last command -/
  reply : List UInt8 := []
  /-- what the `SerialRecv` in progress has received -/
  got : List (ℕ × UInt8) := []
  /-- the exchanges of the call in progress, the latest first -/
  exchanges : List Exchange := []
  /-- the finished calls, the latest first -/
  calls : List CallRecord := []

inductive DialogueAct where
  /-- a byte arrives -/
  | arrive
  /-- a function is called -/
  | call (c : ModemCall)
  /-- the program flushes, stores to `transparentMode` or returns -/
  | next
  /-- the program sends its command, which the modem will answer with `reply` -/
  | send (reply : List UInt8)
  /-- `SerialRecv` takes a byte -/
  | read
  /-- `SerialRecv` returns, being full or at its timeout -/
  | finish
deriving DecidableEq, Repr

def dialogueStep (s : Dialogue) : DialogueAct → Option Dialogue
  | .arrive => s.line.arrive.map fun line => { s with line := line }
  | .call c => if s.prog.isNone then some { s with prog := some (c, c.program) } else none
  | .next =>
      match s.prog with
      | some (c, .flush k) =>
          some { s with prog := some (c, k), line := s.line.drop, late := s.line.underWay }
      | some (c, .setTransparentMode b k) => some { s with prog := some (c, k), transparentMode := b }
      | some (c, .pure rc) =>
          some { s with prog := none, exchanges := [], calls := ⟨c, rc, s.exchanges⟩ :: s.calls }
      | _ => none
  | .send reply =>
      match s.prog with
      | some (c, .send buf k) =>
          some { s with
            prog := some (c, k buf.length)
            line := s.line.put s.commands reply
            commands := s.commands + 1
            reply := reply
            got := [] }
      | _ => none
  | .read =>
      match s.prog with
      | some (_, .recv maxLen _ _) =>
          if s.got.length < maxLen then
            s.line.take.map fun r => { s with line := r.2, got := s.got ++ [r.1] }
          else none
      | _ => none
  | .finish =>
      match s.prog with
      | some (c, .recv _ _ k) =>
          some { s with
            prog := some (c, k (s.got.map Prod.snd) s.got.length)
            exchanges := ⟨s.late, s.commands - 1, s.reply, s.got⟩ :: s.exchanges }
      | _ => none

/-! ## The invariant -/

/-- What was received is a first part of the late bytes and the reply, and the
late bytes are of earlier commands. -/
structure ExchangeOk (e : Exchange) : Prop where
  got_isPrefix : e.got <+: e.late ++ Line.numbered e.command e.reply
  late_lt : ∀ x ∈ e.late, x.1 < e.command

/-- What holds where an exchange stands. -/
def PhaseInv (s : Dialogue) : Serial.Phase → Prop
  | .free => True
  | .flushed => s.line.contents = s.late
  | .asked =>
      0 < s.commands ∧ (∀ x ∈ s.late, x.1 < s.commands - 1) ∧
        s.got ++ s.line.contents = s.late ++ Line.numbered (s.commands - 1) s.reply

/-- One of the words stands in what was received. -/
def Matches (words : List (List UInt8)) (e : Exchange) : Prop :=
  words.any (answers (e.got.map Prod.snd)) = true

/-- The exchanges so far have matched, and the program asks for the rest of the
words; or it is about to return an error. -/
def AsksRest (c : ModemCall) (p : Serial ℤ) (exchanges : List Exchange) : Prop :=
  (∃ matched rest, c.words = matched ++ rest ∧ List.Forall₂ Matches matched exchanges.reverse ∧
    p.Asks rest) ∨ ∃ n, n ≠ 0 ∧ p = .pure n

structure DialogueInv (s : Dialogue) : Prop where
  below : s.line.Below s.commands
  phase : ∀ c p, s.prog = some (c, p) → ∃ phase, p.Follows phase ∧ PhaseInv s phase
  asks : ∀ c p, s.prog = some (c, p) → AsksRest c p s.exchanges
  between : s.prog = none → s.exchanges = []
  exchanges : ∀ e ∈ s.exchanges, ExchangeOk e
  calls : ∀ r ∈ s.calls, (∀ e ∈ r.exchanges, ExchangeOk e) ∧
    (r.result = 0 → List.Forall₂ Matches r.call.words r.exchanges.reverse)

theorem dialogueInv_init : DialogueInv {} where
  below x hx := by simp [Line.contents] at hx
  phase c p h := by simp at h
  asks c p h := by simp at h
  between _ := rfl
  exchanges e he := by simp at he
  calls r hr := by simp at hr

theorem dialogueInv_arrive {s : Dialogue} (h : DialogueInv s) {line : Line UInt8}
    (harrive : s.line.arrive = some line) : DialogueInv { s with line := line } := by
  have hcontents := Line.contents_arrive harrive
  refine ⟨?_, ?_, h.asks, h.between, h.exchanges, h.calls⟩
  · intro x hx
    apply h.below
    rw [← hcontents]
    exact hx
  · intro c p hp
    obtain ⟨phase, hfollows, hphase⟩ := h.phase c p hp
    refine ⟨phase, hfollows, ?_⟩
    cases phase with
    | free => trivial
    | flushed => exact hcontents.trans hphase
    | asked =>
        obtain ⟨hpos, hlate, hbal⟩ := hphase
        refine ⟨hpos, hlate, ?_⟩
        show s.got ++ line.contents = _
        rw [hcontents]
        exact hbal

theorem dialogueInv_call {s : Dialogue} (h : DialogueInv s) (c : ModemCall)
    (hidle : s.prog = none) : DialogueInv { s with prog := some (c, c.program) } := by
  refine ⟨h.below, ?_, ?_, (fun hp => nomatch hp), h.exchanges, h.calls⟩
  · rintro c' p hp
    cases hp
    exact ⟨.free, follows_program c, trivial⟩
  · rintro c' p hp
    cases hp
    show AsksRest c c.program s.exchanges
    rw [h.between hidle]
    rcases asks_program c with hasks | hfail
    · exact Or.inl ⟨[], c.words, rfl, List.Forall₂.nil, hasks⟩
    · exact Or.inr hfail

/-- The program asks for the same words after a step that receives nothing. -/
theorem AsksRest.goOn {c : ModemCall} {p k : Serial ℤ} {exchanges : List Exchange}
    (h : AsksRest c p exchanges) (hstep : ∀ ws, p.Asks ws → k.Asks ws) (hp : ∀ n, p ≠ .pure n) :
    AsksRest c k exchanges := by
  rcases h with ⟨matched, rest, hwords, hmatched, hasks⟩ | ⟨n, -, hpure⟩
  · exact Or.inl ⟨matched, rest, hwords, hmatched, hstep rest hasks⟩
  · exact absurd hpure (hp n)

theorem dialogueInv_flush {s : Dialogue} (h : DialogueInv s) {c : ModemCall} {k : Serial ℤ}
    (hprog : s.prog = some (c, .flush k)) :
    DialogueInv { s with prog := some (c, k), line := s.line.drop, late := s.line.underWay } := by
  obtain ⟨phase, hfollows, -⟩ := h.phase c _ hprog
  have hk : k.Follows .flushed := by cases phase <;> exact hfollows
  refine ⟨h.below.drop, ?_, ?_, (fun hp => nomatch hp), h.exchanges, h.calls⟩
  · rintro c' p hp
    cases hp
    exact ⟨.flushed, hk, Line.contents_drop s.line⟩
  · rintro c' p hp
    cases hp
    apply (h.asks c _ hprog).goOn _ (by simp)
    intro ws hws
    cases ws <;> exact hws

theorem dialogueInv_setMode {s : Dialogue} (h : DialogueInv s) {c : ModemCall} {b : Bool}
    {k : Serial ℤ} (hprog : s.prog = some (c, .setTransparentMode b k)) :
    DialogueInv { s with prog := some (c, k), transparentMode := b } := by
  obtain ⟨phase, hfollows, hphase⟩ := h.phase c _ hprog
  have hk : k.Follows phase := by cases phase <;> exact hfollows
  refine ⟨h.below, ?_, ?_, (fun hp => nomatch hp), h.exchanges, h.calls⟩
  · rintro c' p hp
    cases hp
    exact ⟨phase, hk, by cases phase <;> exact hphase⟩
  · rintro c' p hp
    cases hp
    apply (h.asks c _ hprog).goOn _ (by simp)
    intro ws hws
    cases ws <;> exact hws

theorem dialogueInv_return {s : Dialogue} (h : DialogueInv s) {c : ModemCall} {rc : ℤ}
    (hprog : s.prog = some (c, .pure rc)) :
    DialogueInv
      { s with prog := none, exchanges := [], calls := ⟨c, rc, s.exchanges⟩ :: s.calls } := by
  refine ⟨h.below, (fun c' p hp => nomatch hp), (fun c' p hp => nomatch hp), fun _ => rfl,
    (fun e he => nomatch he), ?_⟩
  intro r hr
  rcases List.mem_cons.mp hr with rfl | hr
  · refine ⟨h.exchanges, fun hzero => ?_⟩
    rcases h.asks c _ hprog with ⟨matched, rest, hwords, hmatched, hasks⟩ | ⟨n, hn, hpure⟩
    · -- nothing is left to be asked for
      have hrest : rest = [] := by cases rest <;> exact hasks hzero
      rw [hrest, List.append_nil] at hwords
      show List.Forall₂ Matches c.words s.exchanges.reverse
      rw [hwords]
      exact hmatched
    · exact absurd hzero (by rw [Serial.pure.inj hpure]; exact hn)
  · exact h.calls r hr

/-- The command goes out right after a flush, so only the late bytes stand in
front of its reply. -/
theorem dialogueInv_send {s : Dialogue} (h : DialogueInv s) {c : ModemCall} {buf : List UInt8}
    {k : ℤ → Serial ℤ} (hprog : s.prog = some (c, .send buf k)) (reply : List UInt8) :
    DialogueInv { s with
      prog := some (c, k buf.length)
      line := s.line.put s.commands reply
      commands := s.commands + 1
      reply := reply
      got := [] } := by
  obtain ⟨phase, hfollows, hphase⟩ := h.phase c _ hprog
  refine ⟨h.below.put reply, ?_, ?_, (fun hp => nomatch hp), h.exchanges, h.calls⟩
  · rintro c' p hp
    cases hp
    cases phase with
    | free => exact hfollows.elim
    | asked => exact hfollows.elim
    | flushed =>
        have hlate : s.line.contents = s.late := hphase
        refine ⟨.asked, hfollows _, Nat.succ_pos _, ?_, ?_⟩
        · intro x hx
          apply h.below
          rw [hlate]
          exact hx
        · show [] ++ (s.line.put s.commands reply).contents =
            s.late ++ Line.numbered s.commands reply
          rw [List.nil_append, Line.contents_put, hlate]
  · rintro c' p hp
    cases hp
    apply (h.asks c _ hprog).goOn _ (by simp)
    intro ws hws
    cases ws <;> exact hws _

theorem dialogueInv_read {s : Dialogue} (h : DialogueInv s) {c : ModemCall} {maxLen : ℕ}
    {timeout : UInt32} {k : List UInt8 → ℤ → Serial ℤ}
    (hprog : s.prog = some (c, .recv maxLen timeout k)) {x : ℕ × UInt8} {line : Line UInt8}
    (htake : s.line.take = some (x, line)) :
    DialogueInv { s with line := line, got := s.got ++ [x] } := by
  have hcontents := Line.contents_take htake
  refine ⟨?_, ?_, h.asks, h.between, h.exchanges, h.calls⟩
  · intro y hy
    apply h.below
    rw [hcontents]
    exact List.mem_cons_of_mem x hy
  · intro c' p hp
    obtain ⟨phase, hfollows, hphase⟩ := h.phase c' p hp
    have hp' : p = .recv maxLen timeout k := by
      rw [hprog] at hp
      cases hp
      rfl
    subst hp'
    cases phase with
    | free => exact hfollows.elim
    | flushed => exact hfollows.elim
    | asked =>
        obtain ⟨hpos, hlate, hbal⟩ := hphase
        refine ⟨.asked, hfollows, hpos, hlate, ?_⟩
        show s.got ++ [x] ++ line.contents = _
        rw [List.append_assoc, List.singleton_append, ← hcontents]
        exact hbal

/-- The exchange is over: what was received is a first part of the line. -/
theorem dialogueInv_finish {s : Dialogue} (h : DialogueInv s) {c : ModemCall} {maxLen : ℕ}
    {timeout : UInt32} {k : List UInt8 → ℤ → Serial ℤ}
    (hprog : s.prog = some (c, .recv maxLen timeout k)) :
    DialogueInv { s with
      prog := some (c, k (s.got.map Prod.snd) s.got.length)
      exchanges := ⟨s.late, s.commands - 1, s.reply, s.got⟩ :: s.exchanges } := by
  obtain ⟨phase, hfollows, hphase⟩ := h.phase c _ hprog
  cases phase with
  | free => exact hfollows.elim
  | flushed => exact hfollows.elim
  | asked =>
      obtain ⟨-, hlate, hbal⟩ := hphase
      refine ⟨h.below, ?_, ?_, (fun hp => nomatch hp), ?_, h.calls⟩
      · rintro c' p hp
        cases hp
        exact ⟨.free, hfollows _ _, trivial⟩
      · rintro c' p hp
        cases hp
        rcases h.asks c _ hprog with ⟨matched, rest, hwords, hmatched, hasks⟩ | ⟨n, -, hpure⟩
        · cases rest with
          | nil => exact hasks.elim
          | cons w rest =>
              rcases hasks (s.got.map Prod.snd) s.got.length with ⟨hfound, hnext⟩ | hfail
              · refine Or.inl ⟨matched ++ [w], rest, ?_, ?_, hnext⟩
                · rw [hwords, List.append_assoc, List.singleton_append]
                · rw [List.reverse_cons]
                  exact List.rel_append hmatched (List.Forall₂.cons hfound List.Forall₂.nil)
              · exact Or.inr hfail
        · cases hpure
      · intro e he
        rcases List.mem_cons.mp he with rfl | he
        · refine ⟨?_, hlate⟩
          show s.got <+: s.late ++ Line.numbered (s.commands - 1) s.reply
          rw [← hbal]
          exact List.prefix_append _ _
        · exact h.exchanges e he

theorem dialogueInv_step (s : Dialogue) (a : DialogueAct) (t : Dialogue) (h : DialogueInv s)
    (hstep : dialogueStep s a = some t) : DialogueInv t := by
  cases a with
  | arrive =>
      obtain ⟨line, harrive, rfl⟩ := Option.map_eq_some_iff.mp hstep
      exact dialogueInv_arrive h harrive
  | call c =>
      simp only [dialogueStep] at hstep
      split at hstep <;> cases hstep
      rename_i hidle
      exact dialogueInv_call h c (Option.isNone_iff_eq_none.mp hidle)
  | next =>
      simp only [dialogueStep] at hstep
      split at hstep <;> cases hstep
      · rename_i c k hprog
        exact dialogueInv_flush h hprog
      · rename_i c b k hprog
        exact dialogueInv_setMode h hprog
      · rename_i c rc hprog
        exact dialogueInv_return h hprog
  | send reply =>
      simp only [dialogueStep] at hstep
      split at hstep <;> cases hstep
      rename_i c buf k hprog
      exact dialogueInv_send h hprog reply
  | read =>
      simp only [dialogueStep] at hstep
      split at hstep
      · rename_i c maxLen timeout k hprog
        split at hstep
        · obtain ⟨⟨x, line⟩, htake, rfl⟩ := Option.map_eq_some_iff.mp hstep
          exact dialogueInv_read h hprog htake
        · cases hstep
      · cases hstep
  | finish =>
      simp only [dialogueStep] at hstep
      split at hstep <;> cases hstep
      rename_i c maxLen timeout k hprog
      exact dialogueInv_finish h hprog

/-! ## Credit -/

/-- The words the functions look for. -/
def responseWords : List (List UInt8) := [OK, CONNECT, SISW]

/-- The occurrence of `word` at `i` in what was received is part of the reply
to the command. -/
def CreditedAt (e : Exchange) (word : List UInt8) (i : ℕ) : Prop :=
  ∀ x ∈ (e.got.drop i).take word.length, x.1 = e.command

theorem creditedAt_iff {e : Exchange} (h : ExchangeOk e) {word : List UInt8}
    (hword : word ∈ responseWords) {i : ℕ} (hfound : strstr (e.got.map Prod.snd) word = some i) :
    CreditedAt e word i ↔ e.late.length ≤ i := by
  have hlen : 0 < word.length := by
    have hall : ∀ w ∈ responseWords, 0 < w.length := by decide
    exact hall word hword
  have hbound := strstr_bound hfound
  rw [List.length_map] at hbound
  exact Line.answered_iff h.got_isPrefix h.late_lt hlen (by omega)

/-- **Credit for replies.** In every run of the functions, with replies that
arrive after any delay: a call that returns 0 has matched one of its words in
each of its exchanges, and a response found after a command is part of the reply
to that command if and only if it begins behind the bytes of earlier replies
that were still under way at the flush before the command. -/
theorem replies_credited_iff (acts : List DialogueAct) (s : Dialogue)
    (hrun : Machine.run dialogueStep {} acts = some s) :
    ∀ r ∈ s.calls,
      (r.result = 0 → List.Forall₂ Matches r.call.words r.exchanges.reverse) ∧
        ∀ e ∈ r.exchanges, ∀ word ∈ responseWords, ∀ i,
          strstr (e.got.map Prod.snd) word = some i →
            (CreditedAt e word i ↔ e.late.length ≤ i) := by
  intro r hr
  have hinv : DialogueInv s := Machine.run_inv dialogueInv_step dialogueInv_init hrun
  obtain ⟨hexchanges, hmatched⟩ := hinv.calls r hr
  refine ⟨hmatched, ?_⟩
  intro e he word hword i hfound
  exact creditedAt_iff (hexchanges e he) hword hfound

/-! The modem's first answer comes late: the first `CellularCheckModem` gives
up before it, and the second one reads it. -/

/-- A call of `CellularCheckModem` that receives what has arrived by its
`SerialRecv`, `n` bytes of it. -/
def checkModemRun (reply : List UInt8) (n : ℕ) : List DialogueAct :=
  [.call .checkModem, .next, .send reply] ++ List.replicate n .arrive ++
    List.replicate n .read ++ [.finish, .next]

def lateReplyRun : List DialogueAct :=
  checkModemRun (ascii "\r\nOK\r\n") 0 ++ checkModemRun (ascii "\r\nERROR\r\n") 6

/-- The exchange of the second call. -/
def lateExchange : Exchange :=
  ⟨Line.numbered 0 (ascii "\r\nOK\r\n"), 1, ascii "\r\nERROR\r\n",
    Line.numbered 0 (ascii "\r\nOK\r\n")⟩

theorem lateReplyRun_result :
    (Machine.run dialogueStep {} lateReplyRun).map Dialogue.calls =
      some [⟨.checkModem, 0, [lateExchange]⟩,
        ⟨.checkModem, -1, [⟨[], 0, ascii "\r\nOK\r\n", []⟩]⟩] := by
  decide +kernel

/-- The second call returns 0 for the OK that answers the first one; its own
reply is an error. -/
theorem late_reply_credited : ∃ s, Machine.run dialogueStep {} lateReplyRun = some s ∧
    ∃ r ∈ s.calls, r.result = 0 ∧ ∃ e ∈ r.exchanges,
      strstr (e.got.map Prod.snd) OK = some 2 ∧ ¬ CreditedAt e OK 2 := by
  obtain ⟨s, hrun, hs⟩ := Option.map_eq_some_iff.mp lateReplyRun_result
  refine ⟨s, hrun, ⟨.checkModem, 0, [lateExchange]⟩, ?_, rfl, lateExchange, ?_, ?_, ?_⟩
  · rw [hs]
    exact List.mem_cons_self
  · exact List.mem_cons_self
  · decide +kernel
  · intro hcredited
    have hfirst := hcredited (0, 79) (by decide +kernel)
    exact absurd hfirst (by decide)

/-- The exchange of a call whose answer comes in time. -/
def promptExchange : Exchange :=
  ⟨[], 0, ascii "\r\nOK\r\n", Line.numbered 0 (ascii "\r\nOK\r\n")⟩

theorem promptRun_result :
    (Machine.run dialogueStep {} (checkModemRun (ascii "\r\nOK\r\n") 6)).map Dialogue.calls =
      some [⟨.checkModem, 0, [promptExchange]⟩] := by
  decide +kernel

theorem prompt_reply_credited : CreditedAt promptExchange OK 2 := by
  obtain ⟨s, hrun, hs⟩ := Option.map_eq_some_iff.mp promptRun_result
  have hcall : ⟨.checkModem, 0, [promptExchange]⟩ ∈ s.calls := by
    rw [hs]
    exact List.mem_cons_self
  have hfound : strstr (promptExchange.got.map Prod.snd) OK = some 2 := by decide +kernel
  obtain ⟨-, hcredited⟩ := replies_credited_iff _ s hrun _ hcall
  exact (hcredited _ List.mem_cons_self OK (by decide) 2 hfound).mpr (Nat.zero_le _)

end SmartDoorLock
