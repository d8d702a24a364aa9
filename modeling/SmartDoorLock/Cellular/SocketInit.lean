import SmartDoorLock.Cellular.Operators

/-!
# What the success of `SocketInit` means

A program is run against an oracle: the `n`-th `SerialRecv` of the run receives
the first bytes of the `n`-th reply. Beside its result the run keeps every
reply with the command before it, which is what there is to see on the line.

`SocketInit` goes on after it has found its arguments invalid, and its loop over
the operators may end without any of them; both leave the return code as it is.
-/

namespace SmartDoorLock

open CText

/-- A function that returns 0 reports no error. -/
theorem zero_ne_error : (0 : ℤ) ≠ -1 := by decide

/-! ## Replies of an oracle -/

/-- What was said over the line: the last command, and each reply received with
the command before it, the oldest first. -/
structure Heard where
  asked : List UInt8 := []
  log : List (List UInt8 × List UInt8) := []
deriving DecidableEq, Repr

def Heard.add (h : Heard) (cmd got : List UInt8) : Heard :=
  { asked := cmd, log := h.log ++ [(cmd, got)] }

@[simp] theorem Heard.add_log (h : Heard) (cmd got : List UInt8) :
    (h.add cmd got).log = h.log ++ [(cmd, got)] := rfl

section

variable {α β : Type} (reply : ℕ → List UInt8)

/-- The result of a program, and what was said. `SerialSend` returns the number
of bytes given to it and `SerialRecv` the number received. -/
def Serial.hear : Serial α → Heard → α × Heard
  | .pure a, h => (a, h)
  | .flush k, h => k.hear h
  | .send buf k, h => (k buf.length).hear { h with asked := buf }
  | .recv maxLen _ k, h =>
      let got := (reply h.log.length).take maxLen
      (k got got.length).hear { h with log := h.log ++ [(h.asked, got)] }
  | .setTransparentMode _ k, h => k.hear h

/-- What is received next. -/
def Heard.next (h : Heard) (maxLen : ℕ) : List UInt8 := (reply h.log.length).take maxLen

theorem next_length_le (h : Heard) (maxLen : ℕ) : (h.next reply maxLen).length ≤ maxLen := by
  rw [Heard.next]
  exact List.length_take_le _ _

@[simp] theorem hear_pure (a : α) (h : Heard) : (Pure.pure a : Serial α).hear reply h = (a, h) := rfl

theorem hear_bind (p : Serial α) (f : α → Serial β) (h : Heard) :
    (p >>= f).hear reply h = (f (p.hear reply h).1).hear reply (p.hear reply h).2 := by
  show (p.bind f).hear reply h = _
  induction p generalizing h with
  | pure a => rfl
  | flush k ih => exact ih h
  | send buf k ih => exact ih _ _
  | recv maxLen timeout k ih => exact ih _ _ _
  | setTransparentMode b k ih => exact ih h

theorem hear_exchange (cmd : List UInt8) (maxLen : ℕ) (timeout : UInt32) (h : Heard) :
    (exchange cmd maxLen timeout).hear reply h =
      (some (h.next reply maxLen), h.add cmd (h.next reply maxLen)) := by
  have hsent : ¬ ((cmd.length : ℤ) = -1) := by omega
  have hgot : ¬ (((h.next reply maxLen).length : ℤ) = -1) := by omega
  simp only [exchange, Serial.hear, if_neg hsent]
  show (if ((h.next reply maxLen).length : ℤ) = -1 then _ else _ : Serial _).hear reply _ = _
  rw [if_neg hgot]
  rfl

/-- An exchange and what is made of the reply. -/
theorem hear_asked (cmd : List UInt8) (maxLen : ℕ) (timeout : UInt32) (none' : Serial β)
    (f : List UInt8 → Serial β) (h : Heard) :
    (do
      match ← exchange cmd maxLen timeout with
      | none => none'
      | some buf => f buf : Serial β).hear reply h =
      (f (h.next reply maxLen)).hear reply (h.add cmd (h.next reply maxLen)) := by
  rw [hear_bind, hear_exchange]

/-- The reply of the `k`-th `SerialRecv` has an OK. -/
def okAt (k maxLen : ℕ) : Bool := answers ((reply k).take maxLen) OK

/-- The return code that says whether something was found. -/
def okCode (found : Bool) : ℤ := if found then 0 else -1

/-- A command that is to be answered by an OK. -/
theorem hear_okCommand (cmd : List UInt8) (maxLen : ℕ) (timeout : UInt32) (h : Heard) :
    (do
      match ← exchange cmd maxLen timeout with
      | none => return -1
      | some buf => if answers buf OK then return 0 else return -1 : Serial ℤ).hear reply h =
      (okCode (okAt reply h.log.length maxLen), h.add cmd (h.next reply maxLen)) := by
  rw [hear_asked]
  show (if okAt reply h.log.length maxLen = true then _ else _ : Serial ℤ).hear reply _ = _
  unfold okCode
  split <;> rfl

end

/-! ## `SocketInit` -/

/-- The loop over the operators found. -/
def operatorSearch : List OperatorInfo → Serial Unit
  | [] => return ()
  | op :: ops => do
      if (← cellularSetOperator SET_OPT_MODE_MANUAL op.operatorCode) = 0 then
        if (← cellularWaitUntilRegistered) = 0 then return ()
      operatorSearch ops

/-- `oplist`, zeroed. -/
def noOperators : List OperatorInfo := List.replicate 25 {}

/-- The first `opsFound` entries of `oplist`. -/
def OperatorsFound.listed (found : OperatorsFound) : List OperatorInfo :=
  (found.opList.getD []).take (found.numOpsFound.getD 0).toNat

/-- Arguments that are found invalid are reported to the debug output only. -/
def validInput (host : Option (List UInt8)) (port : ℤ) : Prop :=
  host ≠ none ∧ 0 ≤ port ∧ port ≤ 65535

/-- `SocketInit`, which goes on whether or not `validInput host port`. -/
def socketInit (host : Option (List UInt8)) (port : ℤ) : Serial ℤ := do
  if (← cellularInit) = -1 then return -1
  if (← cellularWaitUntilModemResponds) = -1 then return -1
  let found ← cellularGetOperators (some noOperators) 25 (some 0)
  if found.rc = -1 then return -1
  operatorSearch found.listed
  if (← cellularSetupInternetConnectionProfile 20) = -1 then return -1
  if (← cellularSetupInternetServiceProfile host port 80) = -1 then return -1
  return 0

/-! ## The property -/

/-- A reply to `AT+CREG?` with the status 1 or 5. -/
def registered (got : List UInt8) : Bool :=
  11 ≤ got.length && (regStatus got = 1 || regStatus got = 5)

/-- The command of `CellularSetOperator` for an operator. -/
def selectCommand (op : OperatorInfo) : List UInt8 :=
  ascii "AT+COPS=1,2,\"" ++ decimal op.operatorCode ++ ascii "\"\r\n"

/-- The operators listed in a reply to `AT+COPS=?`. -/
def listedIn (got : List UInt8) : List OperatorInfo := (parsOperators got 25 noOperators).listed

/-- The arguments were valid, the modem answered `AT`, and one of the operators
it listed was selected with success and then polled until it was registered. -/
structure Usable (host : Option (List UInt8)) (port : ℤ) (log : List (List UInt8 × List UInt8)) :
    Prop where
  valid : validInput host port
  modem : ∃ e ∈ log, e.1 = AT ∧ answers e.2 OK = true
  operator : ∃ list op got pre polls post,
    log = pre ++ (selectCommand op, got) :: (polls ++ post) ∧
      (COPS, list) ∈ pre ∧ op ∈ listedIn list ∧ answers got OK = true ∧
      (∀ e ∈ polls, e.1 = CREG) ∧ ∃ last, polls.getLast? = some last ∧ registered last.2 = true

/-- Either `SocketInit` returns 0 and the socket is usable, or it returns -1. -/
def ReportsUsable (host : Option (List UInt8)) (port : ℤ) (reply : ℕ → List UInt8) : Prop :=
  let r := (socketInit host port).hear reply {}
  (r.1 = 0 ∧ Usable host port r.2.log) ∨ r.1 = -1

/-! ## What the replies say -/

section

variable (reply : ℕ → List UInt8)

/-- The replies from `k` on, of at most `rounds`, up to the first `OK` to `AT`:
the number of the reply after it. -/
def modemAt : ℕ → ℕ → Option ℕ
  | 0, _ => none
  | rounds + 1, k => if okAt reply k 10 then some (k + 1) else modemAt rounds (k + 1)

/-- The polls from `k` on, of at most `rounds`: whether one of them shows a
registration, and the number of the reply after them. -/
def pollAt : ℕ → ℕ → Bool × ℕ
  | 0, k => (false, k)
  | rounds + 1, k =>
      if registered ((reply k).take 25) then (true, k + 1) else pollAt rounds (k + 1)

/-- The search from `k` on: whether an operator accepts and shows a
registration, and the number of the reply after it. -/
def searchAt : List OperatorInfo → ℕ → Bool × ℕ
  | [], k => (false, k)
  | _ :: ops, k =>
      if okAt reply k 10 then
        let r := pollAt reply ROUNDS (k + 1)
        if r.1 then (true, r.2) else searchAt ops r.2
      else searchAt ops (k + 1)

/-- `none` when a stage other than the search is not answered as it asks, and
otherwise whether the search ends with an operator. -/
def stages (host : Option (List UInt8)) : Option Bool :=
  if okAt reply 0 50 && okAt reply 1 50 then
    match modemAt reply ROUNDS 2 with
    | none => none
    | some k =>
        let list := (reply k).take 1023
        if (parsOperators list 25 noOperators).rc = -1 then none
        else
          let r := searchAt reply (listedIn list) (k + 1)
          if host.isSome && (List.range 6).all (fun j => okAt reply (r.2 + j) 9) then some r.1
          else none
  else none

/-! ## The stages -/

theorem hear_initCommand (cmd : List UInt8) (h : Heard) :
    (initCommand cmd).hear reply h =
      (okCode (okAt reply h.log.length 50), h.add cmd (h.next reply 50)) :=
  hear_okCommand reply cmd 50 SHORT_TIME h

theorem hear_checkModem (h : Heard) :
    cellularCheckModem.hear reply h =
      (okCode (okAt reply h.log.length 10), h.add AT (h.next reply 10)) :=
  hear_okCommand reply AT 10 SHORT_TIME h

theorem hear_setOperator (op : OperatorInfo) (h : Heard) :
    (cellularSetOperator SET_OPT_MODE_MANUAL op.operatorCode).hear reply h =
      (okCode (okAt reply h.log.length 10), h.add (selectCommand op) (h.next reply 10)) :=
  hear_okCommand reply (selectCommand op) 10 LONG_TIME h

/-- A program asks `n` questions, none of them for the registration, and returns
0 when each is answered by an OK and -1 otherwise. -/
def AsksOk (maxLen : ℕ) (p : Serial ℤ) (n : ℕ) (h : Heard) : Prop :=
  ∃ l, (p.hear reply h).2.log = h.log ++ l ∧ (∀ e ∈ l, e.1 ≠ CREG) ∧
    (((p.hear reply h).1 = 0 ∧ l.length = n ∧ ∀ j < n, okAt reply (h.log.length + j) maxLen = true) ∨
      ((p.hear reply h).1 = -1 ∧ ∃ j < n, okAt reply (h.log.length + j) maxLen = false))

variable {reply}

/-- The last question. -/
theorem asksOk_last {cmd : List UInt8} {maxLen : ℕ} {h : Heard} {p : Serial ℤ} (hcmd : cmd ≠ CREG)
    (hp : p.hear reply h =
      (okCode (okAt reply h.log.length maxLen), h.add cmd (h.next reply maxLen))) :
    AsksOk reply maxLen p 1 h := by
  refine ⟨[(cmd, h.next reply maxLen)], by rw [hp]; rfl, by simpa using hcmd, ?_⟩
  rw [hp]
  cases hok : okAt reply h.log.length maxLen with
  | true =>
      refine Or.inl ⟨rfl, rfl, ?_⟩
      intro j hj
      obtain rfl : j = 0 := by omega
      exact hok
  | false => exact Or.inr ⟨rfl, 0, Nat.zero_lt_one, hok⟩

/-- A question before the others: without an OK the program returns -1. -/
theorem asksOk_cons {cmd : List UInt8} {maxLen n : ℕ} {h : Heard} {p q : Serial ℤ}
    (hcmd : cmd ≠ CREG)
    (hp : p.hear reply h = if okAt reply h.log.length maxLen then
      q.hear reply (h.add cmd (h.next reply maxLen)) else (-1, h.add cmd (h.next reply maxLen)))
    (hq : AsksOk reply maxLen q n (h.add cmd (h.next reply maxLen))) :
    AsksOk reply maxLen p (n + 1) h := by
  unfold AsksOk
  rw [hp]
  cases hok : okAt reply h.log.length maxLen with
  | false =>
      refine ⟨[(cmd, h.next reply maxLen)], rfl, by simpa using hcmd, Or.inr ⟨rfl, 0, ?_, hok⟩⟩
      exact Nat.succ_pos n
  | true =>
      rw [if_pos rfl]
      have hlen : (h.add cmd (h.next reply maxLen)).log.length = h.log.length + 1 := by simp
      obtain ⟨l, hlog, hall, hres⟩ := hq
      rw [hlen] at hres
      refine ⟨(cmd, h.next reply maxLen) :: l, ?_, ?_, ?_⟩
      · rw [hlog]
        simp
      · intro e he
        rcases List.mem_cons.mp he with rfl | he
        · exact hcmd
        · exact hall e he
      · rcases hres with ⟨hrc, hn, hoks⟩ | ⟨hrc, j, hj, hbad⟩
        · refine Or.inl ⟨hrc, by rw [List.length_cons, hn], ?_⟩
          intro j hj
          cases j with
          | zero => exact hok
          | succ j =>
              have hthis := hoks j (by omega)
              rwa [Nat.add_assoc, Nat.add_comm 1 j] at hthis
        · refine Or.inr ⟨hrc, j + 1, Nat.succ_lt_succ hj, ?_⟩
          rwa [Nat.add_assoc, Nat.add_comm 1 j] at hbad

/-- The shape in which the profile functions ask. -/
theorem asksOk_tested {cmd : List UInt8} {maxLen n : ℕ} {timeout : UInt32} {h : Heard}
    {q : List UInt8 → Serial ℤ} (hcmd : cmd ≠ CREG) (hq : ∀ buf h, AsksOk reply maxLen (q buf) n h) :
    AsksOk reply maxLen
      (do
        match ← exchange cmd maxLen timeout with
        | none => return -1
        | some buf => if !answers buf OK then return -1 else q buf : Serial ℤ) (n + 1) h := by
  apply asksOk_cons hcmd _ (hq (h.next reply maxLen) _)
  rw [hear_asked]
  have hok : okAt reply h.log.length maxLen = answers (h.next reply maxLen) OK := rfl
  rw [hok]
  cases answers (h.next reply maxLen) OK <;> rfl

variable (reply)

theorem asksOk_cellularInit (h : Heard) : AsksOk reply 50 cellularInit 2 h := by
  have hfirst : ∀ h : Heard, cellularInit.hear reply h =
      if okAt reply h.log.length 50 then
        (initCommand SCFG).hear reply (h.add ECHO_OFF (h.next reply 50))
      else (-1, h.add ECHO_OFF (h.next reply 50)) := by
    intro h
    have hinit : cellularInit.hear reply h =
        (do
          if (← initCommand ECHO_OFF) = -1 then return -1
          initCommand SCFG : Serial ℤ).hear reply h := rfl
    rw [hinit, hear_bind, hear_initCommand]
    cases okAt reply h.log.length 50 <;> rfl
  exact asksOk_cons (by decide) (hfirst h)
    (asksOk_last (by decide) (hear_initCommand reply SCFG _))

/-- Another third byte, another command. -/
theorem ne_creg {cmd : List UInt8} (h : cmd.getD 2 0 = 94) : cmd ≠ CREG := by
  rintro rfl
  exact absurd h (by decide)

theorem selectCommand_ne (op : OperatorInfo) : selectCommand op ≠ CREG := by
  intro h
  have hbyte : (selectCommand op).getD 4 0 = 79 := rfl
  have hcreg : CREG.getD 4 0 = 82 := rfl
  rw [h, hcreg] at hbyte
  exact absurd hbyte (by decide)

/-- The wait for the modem sends `AT` until one is answered. -/
theorem hear_modemRounds (rounds : ℕ) (h : Heard) :
    ∃ l, ((modemRounds rounds).hear reply h).2.log = h.log ++ l ∧ (∀ e ∈ l, e.1 = AT) ∧
      match modemAt reply rounds h.log.length with
      | some k => ((modemRounds rounds).hear reply h).1 = 0 ∧ h.log.length + l.length = k ∧
          ∃ e ∈ l, answers e.2 OK = true
      | none => ((modemRounds rounds).hear reply h).1 = -1 := by
  induction rounds generalizing h with
  | zero => exact ⟨[], by simp [modemRounds], by simp, rfl⟩
  | succ rounds ih =>
      have hround : (modemRounds (rounds + 1)).hear reply h =
          (do
            if (← cellularCheckModem) = 0 then return 0
            modemRounds rounds : Serial ℤ).hear reply h := rfl
      rw [hround, hear_bind, hear_checkModem]
      cases hok : okAt reply h.log.length 10 with
      | true =>
          refine ⟨[(AT, h.next reply 10)], rfl, by simp, ?_⟩
          simp only [modemAt, if_pos hok]
          exact ⟨rfl, rfl, _, List.mem_singleton_self _, hok⟩
      | false =>
          have hne : ¬ (okCode false = 0) := by decide
          have hlen : (h.add AT (h.next reply 10)).log.length = h.log.length + 1 := by simp
          have hgo : modemAt reply (rounds + 1) h.log.length =
              modemAt reply rounds (h.log.length + 1) := by simp [modemAt, hok]
          simp only [if_neg hne]
          obtain ⟨l, hlog, hall, hres⟩ := ih (h.add AT (h.next reply 10))
          rw [hlen] at hres
          refine ⟨(AT, h.next reply 10) :: l, ?_, ?_, ?_⟩
          · rw [hlog]
            simp
          · intro e he
            rcases List.mem_cons.mp he with rfl | he
            · rfl
            · exact hall e he
          · rw [hgo]
            cases hat : modemAt reply rounds (h.log.length + 1) with
            | none =>
                rw [hat] at hres
                exact hres
            | some k =>
                rw [hat] at hres
                obtain ⟨hrc, hk, e, he, hans⟩ := hres
                refine ⟨hrc, ?_, e, List.mem_cons_of_mem _ he, hans⟩
                rw [List.length_cons]
                omega

/-- What is made of the next reply to `AT+CREG?`. -/
theorem hear_regStatus (status : ℤ) (h : Heard) :
    (cellularGetRegistrationStatus (some status)).hear reply h =
      (if (h.next reply 25).length < 11 then (-1, some status)
        else if regStatus (h.next reply 25) < 0 ∨ regStatus (h.next reply 25) > 5 then
          (-1, some (regStatus (h.next reply 25)))
        else (0, some (regStatus (h.next reply 25))), h.add CREG (h.next reply 25)) := by
  have hsent : ¬ ((CREG.length : ℤ) = -1) := by omega
  simp only [cellularGetRegistrationStatus, Serial.hear, if_neg hsent]
  show (if ((h.next reply 25).length : ℤ) < 11 then _ else
    if regStatus (h.next reply 25) < 0 ∨ regStatus (h.next reply 25) > 5 then _ else _ :
      Serial _).hear reply _ = _
  by_cases hlen : (h.next reply 25).length < 11
  · rw [if_pos hlen, if_pos (by omega)]
    rfl
  · rw [if_neg hlen, if_neg (by omega)]
    split <;> rfl

/-- One poll of the registration: 0 with the status 1 or 5 exactly for a reply
that shows a registration. -/
theorem hear_getRegistrationStatus (status : ℤ) (h : Heard) :
    ∃ rc st, (cellularGetRegistrationStatus (some status)).hear reply h =
        ((rc, some st), h.add CREG (h.next reply 25)) ∧
      ((rc = 0 ∧ (st = 1 ∨ st = 5)) ↔ registered (h.next reply 25) = true) := by
  rw [hear_regStatus]
  have hreg : registered (h.next reply 25) = true ↔
      11 ≤ (h.next reply 25).length ∧
        (regStatus (h.next reply 25) = 1 ∨ regStatus (h.next reply 25) = 5) := by
    simp [registered]
  rw [hreg]
  split
  · exact ⟨-1, status, rfl, by omega⟩
  · split
    · exact ⟨-1, _, rfl, by omega⟩
    · exact ⟨0, _, rfl, by omega⟩

/-- The wait for the registration polls until one reply shows it. -/
theorem hear_registeredRounds (rounds : ℕ) (status : ℤ) (h : Heard) :
    ∃ l, ((registeredRounds rounds status).hear reply h).2.log = h.log ++ l ∧
      (∀ e ∈ l, e.1 = CREG) ∧
      h.log.length + l.length = (pollAt reply rounds h.log.length).2 ∧
      if (pollAt reply rounds h.log.length).1 then
        ((registeredRounds rounds status).hear reply h).1 = 0 ∧
          ∃ last, l.getLast? = some last ∧ registered last.2 = true
      else ((registeredRounds rounds status).hear reply h).1 = -1 ∧
        ∀ e ∈ l, registered e.2 = false := by
  induction rounds generalizing status h with
  | zero => exact ⟨[], by simp [registeredRounds], by simp, rfl, by simp [pollAt, registeredRounds]⟩
  | succ rounds ih =>
      have hround : (registeredRounds (rounds + 1) status).hear reply h =
          (do
            let r ← cellularGetRegistrationStatus (some status)
            let status := r.2.getD status
            if r.1 = 0 ∧ (status = 1 ∨ status = 5) then return 0
            registeredRounds rounds status : Serial ℤ).hear reply h := rfl
      obtain ⟨rc, st, hpoll, hreg⟩ := hear_getRegistrationStatus reply status h
      rw [hround, hear_bind, hpoll]
      simp only [Option.getD_some]
      cases hshown : registered (h.next reply 25) with
      | true =>
          rw [hshown] at hreg
          have hat : pollAt reply (rounds + 1) h.log.length = (true, h.log.length + 1) :=
            if_pos hshown
          rw [if_pos (hreg.mpr rfl), hat]
          exact ⟨[(CREG, h.next reply 25)], rfl, by simp, rfl, rfl, _, rfl, hshown⟩
      | false =>
          rw [hshown] at hreg
          have hnot : ¬ (rc = 0 ∧ (st = 1 ∨ st = 5)) := fun hc => Bool.noConfusion (hreg.mp hc)
          have hlen : (h.add CREG (h.next reply 25)).log.length = h.log.length + 1 := by simp
          have hat : pollAt reply (rounds + 1) h.log.length =
              pollAt reply rounds (h.log.length + 1) := by
            have hshown' : registered ((reply h.log.length).take 25) = false := hshown
            simp [pollAt, hshown']
          rw [if_neg hnot, hat]
          obtain ⟨l, hlog, hall, hnext, hres⟩ := ih st (h.add CREG (h.next reply 25))
          rw [hlen] at hnext hres
          refine ⟨(CREG, h.next reply 25) :: l, ?_, ?_, ?_, ?_⟩
          · rw [hlog]
            simp
          · intro e he
            rcases List.mem_cons.mp he with rfl | he
            · rfl
            · exact hall e he
          · rw [List.length_cons]
            omega
          · split at hres
            · rename_i hfound
              rw [if_pos hfound]
              obtain ⟨hrc, last, hlast, hshows⟩ := hres
              refine ⟨hrc, last, ?_, hshows⟩
              rw [List.getLast?_cons, hlast]
              rfl
            · rename_i hfound
              rw [if_neg hfound]
              refine ⟨hres.1, ?_⟩
              intro e he
              rcases List.mem_cons.mp he with rfl | he
              · exact hshown
              · exact hres.2 e he

theorem asksOk_connectionProfile (h : Heard) :
    AsksOk reply 9 (cellularSetupInternetConnectionProfile 20) 3 h := by
  refine asksOk_tested (ne_creg rfl) fun _ h => asksOk_tested (ne_creg rfl) fun _ h => ?_
  refine asksOk_last (ne_creg (show SICS_APN.getD 2 0 = 94 from rfl)) ?_
  -- the last exchange is written out in the function
  have hsent : ¬ ((SICS_APN.length : ℤ) = -1) := by omega
  simp only [Serial.hear, if_neg hsent]
  rfl

theorem asksOk_serviceProfile (ip : List UInt8) (port : ℤ) (h : Heard) :
    AsksOk reply 9 (cellularSetupInternetServiceProfile (some ip) port 80) 3 h := by
  refine asksOk_tested (ne_creg rfl) fun _ h => asksOk_tested (ne_creg rfl) fun _ h => ?_
  exact asksOk_last (ne_creg rfl) (hear_okCommand reply _ 9 SHORT_TIME h)

/-- No reply in the log shows a registration. -/
def NoneRegistered (log : List (List UInt8 × List UInt8)) : Prop :=
  ∀ e ∈ log, e.1 = CREG → registered e.2 = false

/-- One of the operators was selected with success and polled until it was
registered. -/
def OperatorFound (ops : List OperatorInfo) (log : List (List UInt8 × List UInt8)) : Prop :=
  ∃ op ∈ ops, ∃ got pre polls post, log = pre ++ (selectCommand op, got) :: (polls ++ post) ∧
    answers got OK = true ∧ (∀ e ∈ polls, e.1 = CREG) ∧
    ∃ last, polls.getLast? = some last ∧ registered last.2 = true

theorem OperatorFound.cons {op : OperatorInfo} {ops : List OperatorInfo}
    {log : List (List UInt8 × List UInt8)} (h : OperatorFound ops log)
    (front : List (List UInt8 × List UInt8)) : OperatorFound (op :: ops) (front ++ log) := by
  obtain ⟨found, hmem, got, pre, polls, post, rfl, hrest⟩ := h
  refine ⟨found, List.mem_cons_of_mem _ hmem, got, front ++ pre, polls, post, ?_, hrest⟩
  rw [List.append_assoc]

theorem OperatorFound.append {ops : List OperatorInfo} {log : List (List UInt8 × List UInt8)}
    (h : OperatorFound ops log) (back : List (List UInt8 × List UInt8)) :
    OperatorFound ops (log ++ back) := by
  obtain ⟨found, hmem, got, pre, polls, post, rfl, hrest⟩ := h
  refine ⟨found, hmem, got, pre, polls, post ++ back, ?_, hrest⟩
  simp

theorem NoneRegistered.append {front log : List (List UInt8 × List UInt8)}
    (hfront : NoneRegistered front) (hlog : NoneRegistered log) : NoneRegistered (front ++ log) := by
  intro e he
  rcases List.mem_append.mp he with he | he
  · exact hfront e he
  · exact hlog e he

theorem noneRegistered_of_ne {log : List (List UInt8 × List UInt8)} (h : ∀ e ∈ log, e.1 ≠ CREG) :
    NoneRegistered log :=
  fun e he hcreg => absurd hcreg (h e he)

/-- One pass of the search. -/
theorem hear_operatorSearch_cons (op : OperatorInfo) (ops : List OperatorInfo) (h : Heard) :
    (operatorSearch (op :: ops)).hear reply h =
      let selected := h.add (selectCommand op) (h.next reply 10)
      let r := cellularWaitUntilRegistered.hear reply selected
      if okAt reply h.log.length 10 then
        if r.1 = 0 then ((), r.2) else (operatorSearch ops).hear reply r.2
      else (operatorSearch ops).hear reply selected := by
  have hround : (operatorSearch (op :: ops)).hear reply h =
      (do
        if (← cellularSetOperator SET_OPT_MODE_MANUAL op.operatorCode) = 0 then
          if (← cellularWaitUntilRegistered) = 0 then return ()
        operatorSearch ops : Serial Unit).hear reply h := rfl
  rw [hround, hear_bind, hear_setOperator]
  cases okAt reply h.log.length 10 with
  | false => rfl
  | true =>
      show (cellularWaitUntilRegistered >>= _).hear reply _ = _
      rw [hear_bind]
      simp only [if_true]
      split <;> rfl

/-- A pass ends the search with its operator, or leaves it to the operators that
follow. -/
theorem operatorSearch_pass (op : OperatorInfo) (ops : List OperatorInfo) (h : Heard) :
    (∃ l, ((operatorSearch (op :: ops)).hear reply h).2.log = h.log ++ l ∧
        searchAt reply (op :: ops) h.log.length = (true, h.log.length + l.length) ∧
        OperatorFound (op :: ops) l) ∨
      ∃ l h', (operatorSearch (op :: ops)).hear reply h = (operatorSearch ops).hear reply h' ∧
        h'.log = h.log ++ l ∧
        searchAt reply (op :: ops) h.log.length = searchAt reply ops h'.log.length ∧
        NoneRegistered l := by
  have hnone : NoneRegistered [(selectCommand op, h.next reply 10)] := by
    apply noneRegistered_of_ne
    simpa using selectCommand_ne op
  have hlen : (h.add (selectCommand op) (h.next reply 10)).log.length = h.log.length + 1 := by
    simp
  rw [hear_operatorSearch_cons]
  cases hok : okAt reply h.log.length 10 with
  | false =>
      refine Or.inr ⟨[(selectCommand op, h.next reply 10)], _, if_neg Bool.false_ne_true, rfl, ?_,
        hnone⟩
      rw [hlen]
      simp [searchAt, hok]
  | true =>
      obtain ⟨polls, hlog, hall, hnext, hres⟩ :=
        hear_registeredRounds reply ROUNDS 0 (h.add (selectCommand op) (h.next reply 10))
      rw [hlen] at hnext hres
      have hsaid : (cellularWaitUntilRegistered.hear reply
          (h.add (selectCommand op) (h.next reply 10))).2.log =
            h.log ++ (selectCommand op, h.next reply 10) :: polls := by
        rw [cellularWaitUntilRegistered, hlog, Heard.add_log, List.append_assoc]
        rfl
      have hcount : h.log.length + ((selectCommand op, h.next reply 10) :: polls).length =
          (pollAt reply ROUNDS (h.log.length + 1)).2 := by
        rw [List.length_cons]
        omega
      simp only [if_true]
      split at hres
      · rename_i hshown
        rw [cellularWaitUntilRegistered, if_pos hres.1, ← cellularWaitUntilRegistered]
        refine Or.inl ⟨(selectCommand op, h.next reply 10) :: polls, hsaid, ?_, ?_⟩
        · rw [hcount]
          simp [searchAt, hok, hshown]
        · exact ⟨op, List.mem_cons_self, h.next reply 10, [], polls, [], by simp, hok, hall, hres.2⟩
      · rename_i hshown
        have hne : ¬ ((cellularWaitUntilRegistered.hear reply
            (h.add (selectCommand op) (h.next reply 10))).1 = 0) := by
          rw [cellularWaitUntilRegistered, hres.1]
          decide
        refine Or.inr ⟨(selectCommand op, h.next reply 10) :: polls, _, if_neg hne, hsaid, ?_, ?_⟩
        · rw [hsaid, List.length_append, hcount]
          simp [searchAt, hok, hshown]
        · exact hnone.append fun e he _ => hres.2 e he

/-- The search selects one operator after the other, and polls after each
selection that succeeds, until a poll shows a registration. -/
theorem hear_operatorSearch (ops : List OperatorInfo) (h : Heard) :
    ∃ l, ((operatorSearch ops).hear reply h).2.log = h.log ++ l ∧
      h.log.length + l.length = (searchAt reply ops h.log.length).2 ∧
      if (searchAt reply ops h.log.length).1 then OperatorFound ops l else NoneRegistered l := by
  induction ops generalizing h with
  | nil => exact ⟨[], by simp [operatorSearch], rfl, by simp [searchAt, NoneRegistered]⟩
  | cons op ops ih =>
      rcases operatorSearch_pass reply op ops h with
        ⟨l, hlog, hat, hfound⟩ | ⟨l, h', hgo, hlog, hat, hnone⟩
      · rw [hat]
        exact ⟨l, hlog, rfl, hfound⟩
      · obtain ⟨l', hlog', hcount, hres⟩ := ih h'
        rw [hgo, hat]
        refine ⟨l ++ l', by rw [hlog', hlog, List.append_assoc], ?_, ?_⟩
        · rw [← hcount, hlog, List.length_append, List.length_append, Nat.add_assoc]
        · split at hres
          · rename_i hfound
            rw [if_pos hfound]
            exact hres.cons l
          · rename_i hfound
            rw [if_neg hfound]
            exact hnone.append hres

/-- The list of operators is asked for once. -/
theorem hear_getOperators (h : Heard) :
    (cellularGetOperators (some noOperators) 25 (some 0)).hear reply h =
      (parsOperators (h.next reply 1023) 25 noOperators, h.add COPS (h.next reply 1023)) :=
  hear_asked reply COPS 1023 LONG_TIME _ _ h

/-- A stage whose failure ends the function. -/
theorem hear_guarded (p q : Serial ℤ) (h : Heard) :
    (do
      if (← p) = -1 then return -1
      q : Serial ℤ).hear reply h =
      if (p.hear reply h).1 = -1 then (-1, (p.hear reply h).2)
      else q.hear reply (p.hear reply h).2 := by
  rw [hear_bind]
  split <;> rfl

/-- One of the six exchanges of the profiles has failed. -/
theorem profiles_not_ok {n j : ℕ} (hj : j < 6) (hbad : okAt reply (n + j) 9 = false) :
    ((List.range 6).all fun j => okAt reply (n + j) 9) = false := by
  rw [List.all_eq_false]
  refine ⟨j, List.mem_range.mpr hj, ?_⟩
  rw [hbad]
  exact Bool.false_ne_true

/-- The two profiles: six questions, and a host. -/
theorem hear_profiles (host : Option (List UInt8)) (port : ℤ) (h : Heard) :
    ∃ l, ((do
        if (← cellularSetupInternetConnectionProfile 20) = -1 then return -1
        if (← cellularSetupInternetServiceProfile host port 80) = -1 then return -1
        return 0 : Serial ℤ).hear reply h) =
      (okCode (host.isSome && (List.range 6).all fun j => okAt reply (h.log.length + j) 9), l) ∧
      ∃ asked, l.log = h.log ++ asked ∧ ∀ e ∈ asked, e.1 ≠ CREG := by
  obtain ⟨l₁, hlog₁, hall₁, hres₁⟩ := asksOk_connectionProfile reply h
  rw [hear_guarded]
  generalize (cellularSetupInternetConnectionProfile 20).hear reply h = r₁ at hlog₁ hres₁ ⊢
  rcases hres₁ with ⟨hrc₁, hn₁, hok₁⟩ | ⟨hrc₁, j, hj, hbad⟩
  · have hne₁ : ¬ (r₁.1 = -1) := by omega
    rw [if_neg hne₁, hear_guarded]
    cases host with
    | none => exact ⟨r₁.2, rfl, l₁, hlog₁, hall₁⟩
    | some ip =>
        obtain ⟨l₂, hlog₂, hall₂, hres₂⟩ := asksOk_serviceProfile reply ip port r₁.2
        generalize (cellularSetupInternetServiceProfile (some ip) port 80).hear reply r₁.2 = r₂
          at hlog₂ hres₂ ⊢
        have hlen : r₁.2.log.length = h.log.length + 3 := by rw [hlog₁, List.length_append, hn₁]
        have hasked : r₂.2.log = h.log ++ (l₁ ++ l₂) := by rw [hlog₂, hlog₁, List.append_assoc]
        have hall : ∀ e ∈ l₁ ++ l₂, e.1 ≠ CREG := by
          intro e he
          exact (List.mem_append.mp he).elim (hall₁ e) (hall₂ e)
        refine ⟨r₂.2, ?_, l₁ ++ l₂, hasked, hall⟩
        rw [hlen] at hres₂
        rcases hres₂ with ⟨hrc₂, -, hok₂⟩ | ⟨hrc₂, j, hj, hbad⟩
        · have hne₂ : ¬ (r₂.1 = -1) := by omega
          have hsix : ((List.range 6).all fun j => okAt reply (h.log.length + j) 9) = true := by
            rw [List.all_eq_true]
            intro j hj
            rw [List.mem_range] at hj
            by_cases hfirst : j < 3
            · exact hok₁ j hfirst
            · have hsecond := hok₂ (j - 3) (by omega)
              rwa [Nat.add_assoc, Nat.add_sub_of_le (by omega)] at hsecond
          rw [if_neg hne₂, hsix]
          rfl
        · rw [Nat.add_assoc] at hbad
          rw [if_pos hrc₂, profiles_not_ok reply (by omega) hbad]
          rfl
  · rw [if_pos hrc₁, profiles_not_ok reply (by omega) hbad, Bool.and_false]
    exact ⟨r₁.2, rfl, l₁, hlog₁, hall₁⟩

/-- What follows the list of operators: the search, whose end is not looked at,
and the profiles. -/
theorem hear_connected (ops : List OperatorInfo) (host : Option (List UInt8)) (port : ℤ)
    (h : Heard) :
    ∃ l h', ((do
        operatorSearch ops
        if (← cellularSetupInternetConnectionProfile 20) = -1 then return -1
        if (← cellularSetupInternetServiceProfile host port 80) = -1 then return -1
        return 0 : Serial ℤ).hear reply h) =
      (okCode (host.isSome && (List.range 6).all fun j =>
        okAt reply ((searchAt reply ops h.log.length).2 + j) 9), h') ∧
      h'.log = h.log ++ l ∧
      if (searchAt reply ops h.log.length).1 then OperatorFound ops l else NoneRegistered l := by
  obtain ⟨l, hlog, hcount, hres⟩ := hear_operatorSearch reply ops h
  rw [hear_bind]
  generalize (operatorSearch ops).hear reply h = r at hlog ⊢
  obtain ⟨h', hprofiles, asked, hlog', hall⟩ := hear_profiles reply host port r.2
  have hend : r.2.log.length = (searchAt reply ops h.log.length).2 := by
    rw [hlog, List.length_append, hcount]
  rw [hend] at hprofiles
  refine ⟨l ++ asked, h', hprofiles, by rw [hlog', hlog, List.append_assoc], ?_⟩
  split at hres
  · rename_i hfound
    rw [if_pos hfound]
    exact hres.append asked
  · rename_i hfound
    rw [if_neg hfound]
    exact hres.append (noneRegistered_of_ne hall)

/-- `SocketInit` goes through the stages: it returns -1 exactly when one of them
other than the search fails. -/
theorem hear_socketInit (host : Option (List UInt8)) (port : ℤ) :
    match stages reply host with
    | none => ((socketInit host port).hear reply {}).1 = -1
    | some found => ((socketInit host port).hear reply {}).1 = 0 ∧ host ≠ none ∧
        (∃ e ∈ ((socketInit host port).hear reply {}).2.log, e.1 = AT ∧ answers e.2 OK = true) ∧
        if found then
          ∃ front rest list, ((socketInit host port).hear reply {}).2.log = front ++ rest ∧
            (COPS, list) ∈ front ∧ OperatorFound (listedIn list) rest
        else NoneRegistered ((socketInit host port).hear reply {}).2.log := by
  obtain ⟨l₀, hlog₀, hall₀, hres₀⟩ := asksOk_cellularInit reply {}
  rw [socketInit, hear_guarded]
  generalize cellularInit.hear reply {} = r₀ at hlog₀ hres₀ ⊢
  rcases hres₀ with ⟨hrc₀, hn₀, hok₀⟩ | ⟨hrc₀, j, hj, hbad⟩
  · have hne₀ : ¬ (r₀.1 = -1) := by omega
    have hlen₀ : r₀.2.log.length = 2 := by rw [hlog₀, List.length_append, hn₀]; rfl
    have hinit : (okAt reply 0 50 && okAt reply 1 50) = true := by
      rw [Bool.and_eq_true]
      exact ⟨hok₀ 0 (by decide), hok₀ 1 (by decide)⟩
    obtain ⟨l₁, hlog₁, hall₁, hres₁⟩ := hear_modemRounds reply ROUNDS r₀.2
    rw [if_neg hne₀, hear_guarded, cellularWaitUntilModemResponds, stages, if_pos hinit]
    generalize (modemRounds ROUNDS).hear reply r₀.2 = r₁ at hlog₁ hres₁ ⊢
    rw [hlen₀] at hres₁
    cases hat : modemAt reply ROUNDS 2 with
    | none =>
        rw [hat] at hres₁
        rw [if_pos hres₁]
    | some k =>
        rw [hat] at hres₁
        obtain ⟨hrc₁, hk, e, he, hans⟩ := hres₁
        have hne₁ : ¬ (r₁.1 = -1) := by omega
        have hlen₁ : r₁.2.log.length = k := by rw [hlog₁, List.length_append, hlen₀, hk]
        have hlist : r₁.2.next reply 1023 = (reply k).take 1023 := by rw [Heard.next, hlen₁]
        rw [if_neg hne₁, hear_bind, hear_getOperators, hlist]
        simp only
        by_cases hrc : (parsOperators ((reply k).take 1023) 25 noOperators).rc = -1
        · rw [if_pos hrc, if_pos hrc]
          rfl
        · rw [if_neg hrc, if_neg hrc]
          have hlen₂ : (r₁.2.add COPS ((reply k).take 1023)).log.length = k + 1 := by
            rw [Heard.add_log, List.length_append, hlen₁]
            rfl
          obtain ⟨l₂, r₂, hrun, hlog₂, hres₂⟩ := hear_connected reply
            (listedIn ((reply k).take 1023)) host port (r₁.2.add COPS ((reply k).take 1023))
          rw [hlen₂] at hrun hres₂
          rw [show (parsOperators ((reply k).take 1023) 25 noOperators).listed =
            listedIn ((reply k).take 1023) from rfl, hrun]
          have hlog : r₂.log = (r₁.2.log ++ [(COPS, (reply k).take 1023)]) ++ l₂ := by
            rw [hlog₂, Heard.add_log]
          cases hok : host.isSome && (List.range 6).all fun j =>
              okAt reply ((searchAt reply (listedIn ((reply k).take 1023)) (k + 1)).2 + j) 9 with
          | false => rfl
          | true =>
              refine ⟨rfl, ?_, ⟨e, ?_, hall₁ e he, hans⟩, ?_⟩
              · rintro rfl
                exact Bool.noConfusion hok
              · simp only [hlog, hlog₁, List.mem_append]
                exact Or.inl (Or.inl (Or.inr he))
              · split at hres₂
                · rename_i hfound
                  rw [if_pos hfound]
                  refine ⟨_, _, _, hlog, ?_, hres₂⟩
                  exact List.mem_append_right _ (List.mem_singleton_self _)
                · rename_i hfound
                  rw [if_neg hfound, hlog, hlog₁, hlog₀]
                  have hmodem : AT ≠ CREG := by decide
                  have hcops : COPS ≠ CREG := by decide
                  refine NoneRegistered.append (noneRegistered_of_ne ?_) hres₂
                  intro x hx
                  simp only [List.mem_append, List.mem_singleton] at hx
                  rcases hx with ((hx | hx) | hx) | rfl
                  · exact absurd hx List.not_mem_nil
                  · exact hall₀ x hx
                  · rw [hall₁ x hx]
                    exact hmodem
                  · exact hcops
  · have hinit : (okAt reply 0 50 && okAt reply 1 50) = false := by
      rcases Nat.lt_succ_iff_lt_or_eq.mp hj with hj | rfl
      · obtain rfl : j = 0 := by omega
        rw [show okAt reply 0 50 = false from hbad]
        rfl
      · rw [show okAt reply 1 50 = false from hbad, Bool.and_false]
    rw [if_pos hrc₀, stages, if_neg (by rw [hinit]; exact Bool.false_ne_true)]

end

/-- **A success means a usable socket, unless an argument is invalid or the
search ends without an operator.** For every host, port and sequence of replies,
`SocketInit` returns -1, or returns 0 with a usable socket, if and only if a
stage other than the search fails, or the arguments are valid and the search
ends with an operator. A list of operators on which `pars_op` writes out of
bounds is run as if the write did no harm. -/
theorem reports_usable_iff (host : Option (List UInt8)) (port : ℤ) (reply : ℕ → List UInt8) :
    ReportsUsable host port reply ↔
      ∀ found, stages reply host = some found → found = true ∧ 0 ≤ port ∧ port ≤ 65535 := by
  have hrun := hear_socketInit reply host port
  unfold ReportsUsable
  generalize (socketInit host port).hear reply {} = r at hrun
  cases hstages : stages reply host with
  | none =>
      rw [hstages] at hrun
      exact iff_of_true (Or.inr hrun) fun _ h => by cases h
  | some found =>
      rw [hstages] at hrun
      obtain ⟨hrc, hhost, hmodem, hsearch⟩ := hrun
      constructor
      · rintro (⟨-, husable⟩ | hfail) found' hfound'
        · obtain rfl : found = found' := Option.some.inj hfound'
          refine ⟨?_, husable.valid.2⟩
          by_contra hnot
          rw [if_neg hnot] at hsearch
          -- the poll that ended the wait is in the log
          obtain ⟨list, op, got, pre, polls, post, hlog, -, -, -, hpolls, last, hlast, hshown⟩ :=
            husable.operator
          have hmem : last ∈ polls := List.mem_of_getLast? hlast
          have hin : last ∈ r.2.log := by
            rw [hlog]
            exact List.mem_append_right _ (List.mem_cons_of_mem _ (List.mem_append_left _ hmem))
          rw [hsearch last hin (hpolls last hmem)] at hshown
          exact Bool.noConfusion hshown
        · rw [hrc] at hfail
          exact absurd hfail (by decide)
      · intro hcond
        obtain ⟨rfl, hport⟩ := hcond found rfl
        rw [if_pos rfl] at hsearch
        obtain ⟨front, rest, list, hlog, hlist, op, hop, got, pre, polls, post, hrest, hans, hpolls,
          hlast⟩ := hsearch
        refine Or.inl ⟨hrc, ⟨hhost, hport⟩, hmodem, list, op, got, front ++ pre, polls, post, ?_,
          List.mem_append_left _ hlist, hop, hans, hpolls, hlast⟩
        rw [hlog, hrest, List.append_assoc]

/-! Two successes that are none. -/

/-- Replies to the twelve commands of a run with one operator, which registers
at the first poll. -/
def oneOperator : List (List UInt8) :=
  [OK, OK, OK, ascii "\r\n+COPS: (2,\"Orange\",\"OR\",\"42501\",2)\r\n\r\nOK\r\n", OK,
    ascii "\r\n+CREG: 0,1\r\n\r\nOK\r\n", OK, OK, OK, OK, OK, OK]

/-- The same run when the modem lists no operator. -/
def noOperator : List (List UInt8) :=
  [OK, OK, OK, ascii "\r\nOK\r\n", OK, OK, OK, OK, OK, OK]

theorem oneOperator_result :
    ((socketInit (some (ascii "35.169.0.97")) 70000).hear (fun n => oneOperator.getD n []) {}).1 =
      0 := by
  decide +kernel

theorem noOperator_result :
    ((socketInit (some (ascii "35.169.0.97")) 1883).hear (fun n => noOperator.getD n []) {}).1 = 0 ∧
      ∀ e ∈ ((socketInit (some (ascii "35.169.0.97")) 1883).hear
        (fun n => noOperator.getD n []) {}).2.log, e.1 ≠ CREG := by
  decide +kernel

/-- A port beyond the range of ports is accepted, and so is a run in which no
operator was found. -/
theorem unusable_reported :
    ¬ ReportsUsable (some (ascii "35.169.0.97")) 70000 (fun n => oneOperator.getD n []) ∧
      ¬ ReportsUsable (some (ascii "35.169.0.97")) 1883 (fun n => noOperator.getD n []) := by
  constructor
  · rintro (⟨-, husable⟩ | hfail)
    · exact absurd husable.valid.2.2 (by decide)
    · rw [oneOperator_result] at hfail
      exact absurd hfail (by decide)
  · obtain ⟨hrc, hlog⟩ := noOperator_result
    rintro (⟨-, husable⟩ | hfail)
    · obtain ⟨list, op, got, pre, polls, post, heq, -, -, -, hpolls, last, hlast, -⟩ :=
        husable.operator
      have hmem : last ∈ polls := List.mem_of_getLast? hlast
      refine absurd (hpolls last hmem) (hlog last ?_)
      rw [heq]
      exact List.mem_append_right _ (List.mem_cons_of_mem _ (List.mem_append_left _ hmem))
    · rw [hrc] at hfail
      exact absurd hfail (by decide)

end SmartDoorLock
