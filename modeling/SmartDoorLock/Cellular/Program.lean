import SmartDoorLock.Lib.CText

/-!
# Programs over the serial line

The functions of `cellular.c` talk to the modem through `SerialFlushInputBuff`,
`SerialSend` and `SerialRecv` only, so each is a program of these three calls
and of the stores to `transparentMode`; what the calls do is left to the
machine that runs it.
-/

namespace SmartDoorLock

open CText

/-- A program that talks over the serial line and returns an `α`. -/
inductive Serial (α : Type) where
  | pure (a : α)
  /-- `SerialFlushInputBuff` -/
  | flush (k : Serial α)
  /-- `SerialSend`; the program goes on with the return code -/
  | send (buf : List UInt8) (k : ℤ → Serial α)
  /-- `SerialRecv`; the program goes on with the bytes received and the return
  code -/
  | recv (maxLen : ℕ) (timeout : UInt32) (k : List UInt8 → ℤ → Serial α)
  /-- a store to `transparentMode` -/
  | setTransparentMode (b : Bool) (k : Serial α)

namespace Serial

variable {α β : Type}

def bind (p : Serial α) (f : α → Serial β) : Serial β :=
  match p with
  | .pure a => f a
  | .flush k => .flush (k.bind f)
  | .send buf k => .send buf fun rc => (k rc).bind f
  | .recv maxLen timeout k => .recv maxLen timeout fun buf rc => (k buf rc).bind f
  | .setTransparentMode b k => .setTransparentMode b (k.bind f)

instance : Monad Serial where
  pure := .pure
  bind := bind

/-! ## The order of the calls -/

/-- Where an exchange stands. -/
inductive Phase where
  /-- nothing is flushed yet -/
  | free
  /-- flushed, and nothing sent since -/
  | flushed
  /-- a command is sent -/
  | asked
deriving DecidableEq, Repr

/-- Every command is sent right after a flush, and received for once. -/
def Follows : Phase → Serial α → Prop
  | _, .pure _ => True
  | _, .flush k => k.Follows .flushed
  | .flushed, .send _ k => ∀ rc, (k rc).Follows .asked
  | _, .send _ _ => False
  | .asked, .recv _ _ k => ∀ buf rc, (k buf rc).Follows .free
  | _, .recv _ _ _ => False
  | phase, .setTransparentMode _ k => k.Follows phase

end Serial

/-! ## Commands and words -/

def SHORT_TIME : UInt32 := 3000
def LONG_TIME : UInt32 := 120000

def AT : List UInt8 := ascii "AT\r\n"
def SISO_COMM : List UInt8 := ascii "AT^SISO=0\r\n"
def SIST_COMM : List UInt8 := ascii "AT^SIST=0\r\n"
def SISS_CONNID : List UInt8 := ascii "AT^SISS=0,\"conId\",\"0\"\r\n"
def SICS_CONTYPE : List UInt8 := ascii "AT^SICS=0,conType,\"GPRS0\"\r\n"
def SICS_APN : List UInt8 := ascii "AT^SICS=0,apn,\"postm2m.lu\"\r\n"
def SISS_SRVTYPE : List UInt8 := ascii "AT^SISS=0,\"SrvType\",\"Socket\"\r\n"

def OK : List UInt8 := ascii "OK"
def SISW : List UInt8 := ascii "^SISW"
def CONNECT : List UInt8 := ascii "CONNECT"

/-- `%d`. -/
def decimal (n : ℤ) : List UInt8 := ascii (toString n)

/-- What `SerialSend(buf_send, f_size)` sends: `snprintf` has written at most
1022 characters to the zeroed buffer, and `f_size` is the length of the whole
text. -/
def formatted (text : List UInt8) : List UInt8 :=
  (text.take 1022 ++ List.replicate (1024 - (text.take 1022).length) 0).take text.length

/-- Flush, send and receive, with the checks of the two return codes; `none`
is `return -1`. -/
def exchange (cmd : List UInt8) (maxLen : ℕ) (timeout : UInt32) : Serial (Option (List UInt8)) :=
  .flush <| .send cmd fun sent =>
    if sent = -1 then .pure none
    else .recv maxLen timeout fun buf rc => if rc = -1 then .pure none else .pure (some buf)

/-- Does a word stand in the reply? The buffers are zeroed and one byte longer
than what is received. -/
def answers (buf : List UInt8) (word : List UInt8) : Bool := (strstr buf word).isSome

/-- The program returns 0 only when each of its next replies has one of the
words of its entry in `ws`, and there are no more replies than entries. -/
def Serial.Asks : List (List (List UInt8)) → Serial ℤ → Prop
  | ws, .pure rc => rc = 0 → ws = []
  | ws, .flush k => k.Asks ws
  | ws, .send _ k => ∀ rc, (k rc).Asks ws
  | [], .recv _ _ _ => False
  | w :: ws, .recv _ _ k => ∀ buf rc,
      (w.any (answers buf) = true ∧ (k buf rc).Asks ws) ∨ ∃ n, n ≠ 0 ∧ k buf rc = .pure n
  | ws, .setTransparentMode _ k => k.Asks ws

/-! ## The functions -/

/-- `CellularCheckModem`. -/
def cellularCheckModem : Serial ℤ := do
  match ← exchange AT 10 SHORT_TIME with
  | none => return -1
  | some buf => if answers buf OK then return 0 else return -1

/-- The modes of `CellularSetOperator`. -/
abbrev SET_OPT_MODE_AUTO : ℤ := 0
abbrev SET_OPT_MODE_MANUAL : ℤ := 1
abbrev SET_OPT_MODE_DEREG : ℤ := 2

/-- The command of `CellularSetOperator`; `none` for another mode. -/
def copsCommand (mode operatorCode : ℤ) : Option (List UInt8) :=
  if mode = SET_OPT_MODE_AUTO then some (ascii "AT+COPS=0\r\n")
  else if mode = SET_OPT_MODE_MANUAL then
    some (ascii "AT+COPS=1,2,\"" ++ decimal operatorCode ++ ascii "\"\r\n")
  else if mode = SET_OPT_MODE_DEREG then some (ascii "AT+COPS=2\r\n")
  else none

/-- `CellularSetOperator`. -/
def cellularSetOperator (mode operatorCode : ℤ) : Serial ℤ := do
  match copsCommand mode operatorCode with
  | none => return -1
  | some cmd =>
      match ← exchange cmd 10 LONG_TIME with
      | none => return -1
      | some buf => if answers buf OK then return 0 else return -1

/-- `CellularSetupInternetConnectionProfile`. The return code of the last
`SerialRecv` is not acted upon. -/
def cellularSetupInternetConnectionProfile (inactTimeSec : ℤ) : Serial ℤ := do
  if inactTimeSec < 0 then return -1
  match ← exchange SICS_CONTYPE 9 SHORT_TIME with
  | none => return -1
  | some buf =>
      if !answers buf OK then return -1
      let inact := formatted (ascii "AT^SICS=0,inactTO,\"" ++ decimal inactTimeSec ++ ascii "\"\r\n")
      match ← exchange inact 9 SHORT_TIME with
      | none => return -1
      | some buf =>
          if !answers buf OK then return -1
          .flush <| .send SICS_APN fun sent =>
            if sent = -1 then .pure (-1)
            else .recv 9 SHORT_TIME fun buf _ => .pure (if answers buf OK then 0 else -1)

/-- `CellularSetupInternetServiceProfile`; `ip` is `none` for `NULL`. -/
def cellularSetupInternetServiceProfile (ip : Option (List UInt8)) (port keepintvlSec : ℤ) :
    Serial ℤ := do
  match ip with
  | none => return -1
  | some ip =>
      if keepintvlSec < 0 then return -1
      match ← exchange SISS_SRVTYPE 9 SHORT_TIME with
      | none => return -1
      | some buf =>
          if !answers buf OK then return -1
          match ← exchange SISS_CONNID 9 SHORT_TIME with
          | none => return -1
          | some buf =>
              if !answers buf OK then return -1
              let address := formatted (ascii "AT^SISS=0,\"address\",\"socktcp://" ++ cstr ip ++
                ascii ":" ++ decimal port ++ ascii ";etx;timer=" ++ decimal keepintvlSec ++
                ascii "\"\r\n")
              match ← exchange address 9 SHORT_TIME with
              | none => return -1
              | some buf => if answers buf OK then return 0 else return -1

/-- `CellularConnect`. -/
def cellularConnect : Serial ℤ := do
  match ← exchange SISO_COMM 18 SHORT_TIME with
  | none => return -1
  | some buf =>
      if !answers buf OK && !answers buf SISW then return -1
      match ← exchange SIST_COMM 18 SHORT_TIME with
      | none => return -1
      | some buf =>
          if !answers buf OK && !answers buf CONNECT then return -1
          .setTransparentMode true <| .pure 0

/-! ## The functions exchange by exchange -/

theorem follows_exchange {α : Type} {cmd : List UInt8} {maxLen : ℕ} {timeout : UInt32}
    {f : Option (List UInt8) → Serial α} (hnone : ∀ phase, (f none).Follows phase)
    (hsome : ∀ buf, (f (some buf)).Follows .free) (phase : Serial.Phase) :
    (exchange cmd maxLen timeout >>= f).Follows phase := by
  show ((exchange cmd maxLen timeout).bind f).Follows phase
  simp only [exchange, Serial.bind, Serial.Follows]
  intro sent
  split
  · exact hnone .asked
  · intro buf rc
    dsimp only
    split
    · exact hnone .free
    · exact hsome buf

theorem follows_pure {α : Type} (a : α) (phase : Serial.Phase) :
    (Pure.pure a : Serial α).Follows phase := by
  show (Serial.pure a).Follows phase
  cases phase <;> trivial

section Tested

variable {cmd : List UInt8} {maxLen : ℕ} {timeout : UInt32} {c : List UInt8 → Bool}
  {p q : List UInt8 → Serial ℤ}

/-- An exchange, and a test of the reply. -/
theorem follows_tested (hp : ∀ buf, (p buf).Follows .free) (hq : ∀ buf, (q buf).Follows .free)
    (phase : Serial.Phase) :
    (do
      match ← exchange cmd maxLen timeout with
      | none => return -1
      | some buf => if c buf then p buf else q buf : Serial ℤ).Follows phase := by
  apply follows_exchange
  · exact follows_pure (-1)
  · intro buf
    dsimp only
    split
    · exact hp buf
    · exact hq buf

/-- Where the test fails, the program must return an error. -/
theorem asks_tested {w : List (List UInt8)} {ws : List (List (List UInt8))}
    (hp : ∀ buf, c buf = true →
      (w.any (answers buf) = true ∧ (p buf).Asks ws) ∨ ∃ n, n ≠ 0 ∧ p buf = .pure n)
    (hq : ∀ buf, c buf = false →
      (w.any (answers buf) = true ∧ (q buf).Asks ws) ∨ ∃ n, n ≠ 0 ∧ q buf = .pure n) :
    (do
      match ← exchange cmd maxLen timeout with
      | none => return -1
      | some buf => if c buf then p buf else q buf : Serial ℤ).Asks (w :: ws) := by
  show ((exchange cmd maxLen timeout).bind _).Asks (w :: ws)
  simp only [exchange, Serial.bind, Serial.Asks]
  intro sent
  split
  · exact fun h => absurd h (by decide)
  · intro buf rc
    dsimp only
    split
    · exact Or.inr ⟨-1, by decide, rfl⟩
    · simp only [Serial.bind]
      cases hc : c buf with
      | true =>
          rw [if_pos rfl]
          exact hp buf hc
      | false =>
          rw [if_neg Bool.false_ne_true]
          exact hq buf hc

end Tested

theorem follows_return (n : ℤ) (_ : List UInt8) : (Pure.pure n : Serial ℤ).Follows .free :=
  follows_pure n .free

/-- The calls that prepare and open a connection. -/
inductive ModemCall where
  | checkModem
  | setOperator (mode operatorCode : ℤ)
  | setupInternetConnectionProfile (inactTimeSec : ℤ)
  | setupInternetServiceProfile (ip : Option (List UInt8)) (port keepintvlSec : ℤ)
  | connect
deriving DecidableEq, Repr

def ModemCall.program : ModemCall → Serial ℤ
  | .checkModem => cellularCheckModem
  | .setOperator mode operatorCode => cellularSetOperator mode operatorCode
  | .setupInternetConnectionProfile inact => cellularSetupInternetConnectionProfile inact
  | .setupInternetServiceProfile ip port keep => cellularSetupInternetServiceProfile ip port keep
  | .connect => cellularConnect

/-- The words a function looks for in its replies, one entry for each. -/
def ModemCall.words : ModemCall → List (List (List UInt8))
  | .checkModem => [[OK]]
  | .setOperator _ _ => [[OK]]
  | .setupInternetConnectionProfile _ => [[OK], [OK], [OK]]
  | .setupInternetServiceProfile _ _ _ => [[OK], [OK], [OK]]
  | .connect => [[OK, SISW], [OK, CONNECT]]

/-- Each function sends a command only after a flush, and receives once for it. -/
theorem follows_program (c : ModemCall) : c.program.Follows .free := by
  cases c with
  | checkModem => exact follows_tested (follows_return 0) (follows_return (-1)) .free
  | setOperator mode operatorCode =>
      simp only [ModemCall.program, cellularSetOperator]
      split
      · exact follows_pure _ _
      · exact follows_tested (follows_return 0) (follows_return (-1)) .free
  | setupInternetConnectionProfile inact =>
      simp only [ModemCall.program, cellularSetupInternetConnectionProfile]
      split
      · exact follows_pure _ _
      · apply follows_tested (follows_return (-1))
        intro _
        apply follows_tested (follows_return (-1))
        -- the last exchange is written out in the function
        intro _ sent
        dsimp only
        split
        · exact trivial
        · exact fun _ _ => trivial
  | setupInternetServiceProfile ip port keep =>
      simp only [ModemCall.program, cellularSetupInternetServiceProfile]
      split
      · exact follows_pure _ _
      · split
        · exact follows_pure _ _
        · apply follows_tested (follows_return (-1))
          intro _
          apply follows_tested (follows_return (-1))
          intro _
          exact follows_tested (follows_return 0) (follows_return (-1)) .free
  | connect =>
      apply follows_tested (follows_return (-1))
      intro _
      apply follows_tested (follows_return (-1))
      intro _
      exact trivial

/-- An error is returned at once. -/
theorem asks_fail {w : List (List UInt8)} {ws : List (List (List UInt8))} (buf : List UInt8) :
    (w.any (answers buf) = true ∧ (Pure.pure (-1) : Serial ℤ).Asks ws) ∨
      ∃ n, n ≠ 0 ∧ (Pure.pure (-1) : Serial ℤ) = .pure n :=
  Or.inr ⟨-1, by decide, rfl⟩

theorem any_ok {buf : List UInt8} (h : answers buf OK = true) :
    [OK].any (answers buf) = true := by
  rw [List.any_cons, h]
  rfl

theorem any_pair {buf word word' : List UInt8}
    (h : (!answers buf word && !answers buf word') = false) :
    [word, word'].any (answers buf) = true := by
  rw [List.any_cons, List.any_cons, List.any_nil, Bool.or_false]
  cases hword : answers buf word with
  | true => rfl
  | false =>
      rw [hword] at h
      simpa using h

/-- The last reply, of which only an OK gives 0. -/
theorem asks_last {cmd : List UInt8} {maxLen : ℕ} {timeout : UInt32} :
    (do
      match ← exchange cmd maxLen timeout with
      | none => return -1
      | some buf => if answers buf OK then return 0 else return -1 : Serial ℤ).Asks [[OK]] := by
  apply asks_tested
  · exact fun buf hok => Or.inl ⟨any_ok hok, fun _ => rfl⟩
  · exact fun buf _ => asks_fail buf

/-- A reply without OK is an error, and otherwise the program goes on. -/
theorem asks_ok {cmd : List UInt8} {maxLen : ℕ} {timeout : UInt32}
    {ws : List (List (List UInt8))} {q : List UInt8 → Serial ℤ} (hq : ∀ buf, (q buf).Asks ws) :
    (do
      match ← exchange cmd maxLen timeout with
      | none => return -1
      | some buf => if !answers buf OK then return -1 else q buf : Serial ℤ).Asks
        ([OK] :: ws) := by
  apply asks_tested
  · exact fun buf _ => asks_fail buf
  · intro buf hok
    exact Or.inl ⟨any_ok (by simpa using hok), hq buf⟩

/-- **Each function returns 0 only for the replies it asks for.** -/
theorem asks_program (c : ModemCall) :
    c.program.Asks c.words ∨ ∃ n, n ≠ 0 ∧ c.program = .pure n := by
  cases c with
  | checkModem => exact Or.inl asks_last
  | setOperator mode operatorCode =>
      simp only [ModemCall.program, cellularSetOperator]
      split
      · exact Or.inr ⟨-1, by decide, rfl⟩
      · exact Or.inl asks_last
  | setupInternetConnectionProfile inact =>
      simp only [ModemCall.program, cellularSetupInternetConnectionProfile]
      split
      · exact Or.inr ⟨-1, by decide, rfl⟩
      · refine Or.inl (asks_ok fun _ => asks_ok fun _ => ?_)
        intro sent
        dsimp only
        split
        · exact fun h => absurd h (by decide)
        · intro buf _
          cases hok : answers buf OK with
          | true => exact Or.inl ⟨any_ok hok, fun _ => rfl⟩
          | false => exact Or.inr ⟨-1, by decide, by simp [hok]⟩
  | setupInternetServiceProfile ip port keep =>
      simp only [ModemCall.program, cellularSetupInternetServiceProfile]
      split
      · exact Or.inr ⟨-1, by decide, rfl⟩
      · split
        · exact Or.inr ⟨-1, by decide, rfl⟩
        · exact Or.inl (asks_ok fun _ => asks_ok fun _ => asks_last)
  | connect =>
      refine Or.inl (asks_tested (fun buf _ => asks_fail buf) ?_)
      intro buf hfound
      refine Or.inl ⟨any_pair hfound, asks_tested (fun buf _ => asks_fail buf) ?_⟩
      exact fun buf hfound => Or.inl ⟨any_pair hfound, fun _ => rfl⟩

end SmartDoorLock
