import SmartDoorLock.Cellular.SocketInit
import SmartDoorLock.Lib.Machine

/-!
# Command mode and data mode

`run_app` calls `run_mqtt` until it returns 0. Each attempt initialises the
modem, connects, and from then on hands every byte to the peer; each failure
goes through `on_fail`, which closes the connection. The library calls between
these steps read and write through the connection as they like and end as they
like, and the modem answers as it likes.

`CellularClose` clears `transparentMode` when the escape is answered. When it is
not, it returns at once, and the next attempt starts as if the modem were in
command mode.
-/

namespace SmartDoorLock

open CText

/-! ## The programs around the connection -/

def STOP_TRANSPARENT : List UInt8 := ascii "+++"
def SISC_COMM : List UInt8 := ascii "AT^SISC=0\r\n"

def NO_CARRIER : List UInt8 := ascii "NO CARRIER"

/-- The end of `CellularClose`, in command mode. -/
def closeCommand : Serial ℤ := do
  match ← exchange SISC_COMM 9 SHORT_TIME with
  | none => return -1
  | some buf => if answers buf OK then return 0 else return -1

/-- The answer to the escape that `CellularClose` waits for. -/
def escaped (buf : List UInt8) : Bool := answers buf OK || answers buf NO_CARRIER

/-- `CellularClose`, with the value that it finds in `transparentMode`. -/
def cellularClose (transparentMode : Bool) : Serial ℤ :=
  if transparentMode then
    .send STOP_TRANSPARENT fun sent =>
      if sent = -1 then .pure (-1)
      else .recv 15 SHORT_TIME fun buf rc =>
        if rc = -1 then .pure (-1)
        else if !answers buf OK && !answers buf NO_CARRIER then .pure (-1)
        else .setTransparentMode false closeCommand
  else closeCommand

/-- The exchange of `CellularGetIMEI`. What it copies from the reply goes to the
client's name only, and a reply on which it does not end is the end of a run. -/
def askImei : Serial ℤ := do
  match ← exchange CGSN 49 SHORT_TIME with
  | none => return -1
  | some _ => return 0

/-! ## The life cycle -/

/-- Where `run_mqtt` and `on_fail` stand. -/
inductive LifePhase where
  /-- `run_mqtt` is called -/
  | runMqtt
  /-- in `NetConnect`: `SocketInit` -/
  | socketInit
  /-- in `NetConnect`: `CellularGetIMEI` -/
  | getImei
  /-- in `NetConnect`: `SocketConnect` -/
  | socketConnect
  /-- in `lwt_connect`: `MqttClient_Connect` -/
  | lwtConnect
  /-- in `subscribes`: `MqttClient_Subscribe` -/
  | subscribes
  /-- in `publish_msg`: `MqttClient_Publish` -/
  | publish
  /-- `run_mqtt` has returned 0 -/
  | connected
  /-- in `on_fail`: `MqttClient_Disconnect_ex` -/
  | disconnect
  /-- in `MqttClientNet_DeInit`: `SocketDeInit` -/
  | socketDeInit
deriving DecidableEq, Repr

/-- A program of the modem is in progress. -/
def LifePhase.atModem : LifePhase → Bool
  | .socketInit | .getImei | .socketConnect | .socketDeInit => true
  | _ => false

/-- The library may call `NetRead` and `NetWrite`. -/
def LifePhase.atLibrary : LifePhase → Bool
  | .lwtConnect | .subscribes | .publish | .connected | .disconnect => true
  | _ => false

/-- A call of `SerialSend`: whether `CellularWrite` made it, what was sent, and
the `transparentMode` at that time. -/
structure SendRecord where
  payload : Bool
  buf : List UInt8
  transparentMode : Bool
deriving DecidableEq, Repr

structure LifeCycle where
  phase : LifePhase := .runMqtt
  transparentMode : Bool := false
  /-- what is left of the program in progress -/
  prog : Serial ℤ := .pure 0
  /-- what a program of the modem has sent last -/
  asked : List UInt8 := []
  /-- all calls of `SerialSend`, the latest first -/
  sends : List SendRecord := []

inductive LifeAct where
  /-- `MqttClient_Init` returns, with success or not -/
  | clientInit (ok : Bool)
  /-- the program in progress flushes, sends, stores to `transparentMode` or
  returns -/
  | next
  /-- its `SerialRecv` returns -/
  | recv (got : List UInt8)
  /-- the library calls `NetWrite`, and so `CellularWrite` -/
  | write (payload : List UInt8)
  /-- the library function in progress returns, with success or not -/
  | done (ok : Bool)
deriving DecidableEq, Repr

section

variable (host : Option (List UInt8)) (port : ℤ)

/-- The program in progress has returned `rc`. -/
def returned (s : LifeCycle) (rc : ℤ) : LifeCycle :=
  match s.phase with
  | .socketInit =>
      if rc < 0 then { s with phase := .disconnect }
      else { s with phase := .getImei, prog := askImei }
  | .getImei => { s with phase := .socketConnect, prog := cellularConnect }
  | .socketConnect => { s with phase := if rc < 0 then .disconnect else .lwtConnect }
  | .socketDeInit => { s with phase := .runMqtt }
  | _ => s

/-- The library function in progress has returned; the result of the last
publication and that of the disconnection are not looked at. -/
def libraryDone (s : LifeCycle) (ok : Bool) : Option LifeCycle :=
  match s.phase with
  | .lwtConnect => some { s with phase := if ok then .subscribes else .disconnect }
  | .subscribes => some { s with phase := if ok then .publish else .disconnect }
  | .publish => some { s with phase := .connected }
  | .disconnect =>
      some { s with phase := .socketDeInit, prog := cellularClose s.transparentMode }
  | _ => none

def lifeStep (s : LifeCycle) : LifeAct → Option LifeCycle
  | .clientInit ok =>
      if s.phase = .runMqtt then
        some (if ok then { s with phase := .socketInit, prog := socketInit host port } else s)
      else none
  | .next =>
      if s.phase.atModem then
        match s.prog with
        | .pure rc => some (returned s rc)
        | .flush k => some { s with prog := k }
        | .send buf k =>
            some { s with
              prog := k buf.length
              asked := buf
              sends := ⟨false, buf, s.transparentMode⟩ :: s.sends }
        | .recv _ _ _ => none
        | .setTransparentMode b k => some { s with prog := k, transparentMode := b }
      else none
  | .recv got =>
      if s.phase.atModem then
        match s.prog with
        | .recv maxLen _ k =>
            if got.length ≤ maxLen then some { s with prog := k got got.length } else none
        | _ => none
      else none
  | .write payload =>
      if s.phase.atLibrary then
        some { s with sends := ⟨true, payload, s.transparentMode⟩ :: s.sends }
      else none
  | .done ok => libraryDone s ok

end

/-! ## The property and the condition -/

/-- While `transparentMode` is 1, only payload and the escape are sent. -/
def ModeDiscipline (s : LifeCycle) : Prop :=
  ∀ r ∈ s.sends, r.transparentMode = true → r.payload = true ∨ r.buf = STOP_TRANSPARENT

/-- What is received after an escape answers it. -/
def EscapeAnswered (s : LifeCycle) (a : LifeAct) : Prop :=
  ∀ got, a = .recv got → s.asked = STOP_TRANSPARENT → escaped got = true

/-! ## Programs that keep to the mode -/

namespace Serial

variable {α β : Type}

/-- A program without a store to `transparentMode`. -/
def KeepsMode : Serial α → Prop
  | .pure _ => True
  | .flush k => k.KeepsMode
  | .send _ k => ∀ rc, (k rc).KeepsMode
  | .recv _ _ k => ∀ buf rc, (k buf rc).KeepsMode
  | .setTransparentMode _ _ => False

/-- From the mode `mode`, with `asked` sent last, a program sends nothing but the
escape in data mode, and ends in a mode as `post` says. -/
def Careful (post : Bool → Prop) : Bool → List UInt8 → Serial α → Prop
  | mode, _, .pure _ => post mode
  | mode, asked, .flush k => k.Careful post mode asked
  | mode, _, .send buf k =>
      (mode = true → buf = STOP_TRANSPARENT) ∧ (k buf.length).Careful post mode buf
  | mode, asked, .recv _ _ k => ∀ got : List UInt8,
      (asked = STOP_TRANSPARENT → escaped got = true) → (k got got.length).Careful post mode asked
  | _, asked, .setTransparentMode b k => k.Careful post b asked

theorem keepsMode_bind {p : Serial α} {f : α → Serial β} (hp : p.KeepsMode)
    (hf : ∀ a, (f a).KeepsMode) : (p >>= f).KeepsMode := by
  show (p.bind f).KeepsMode
  induction p with
  | pure a => exact hf a
  | flush k ih => exact ih hp
  | send buf k ih => exact fun rc => ih rc (hp rc)
  | recv maxLen timeout k ih => exact fun buf rc => ih buf rc (hp buf rc)
  | setTransparentMode b k => exact hp.elim

theorem keepsMode_pure (a : α) : (Pure.pure a : Serial α).KeepsMode := trivial

/-- In command mode anything may be sent. -/
theorem KeepsMode.careful {p : Serial α} (h : p.KeepsMode) (asked : List UInt8) :
    p.Careful (fun mode => mode = false) false asked := by
  induction p generalizing asked with
  | pure a => rfl
  | flush k ih => exact ih h asked
  | send buf k ih => exact ⟨fun hmode => Bool.noConfusion hmode, ih _ (h _) buf⟩
  | recv maxLen timeout k ih => exact fun got _ => ih _ _ (h _ _) asked
  | setTransparentMode b k => exact h.elim

end Serial

open Serial

theorem keepsMode_exchange (cmd : List UInt8) (maxLen : ℕ) (timeout : UInt32) :
    (exchange cmd maxLen timeout).KeepsMode := by
  intro sent
  dsimp only
  split
  · trivial
  · intro buf rc
    dsimp only
    split <;> trivial

/-- An exchange and a program for each of its results. -/
theorem keepsMode_asked {β : Type} {cmd : List UInt8} {maxLen : ℕ} {timeout : UInt32}
    {p : Serial β} {f : List UInt8 → Serial β} (hp : p.KeepsMode) (hf : ∀ buf, (f buf).KeepsMode) :
    (do
      match ← exchange cmd maxLen timeout with
      | none => p
      | some buf => f buf : Serial β).KeepsMode := by
  refine keepsMode_bind (keepsMode_exchange cmd maxLen timeout) fun got => ?_
  cases got with
  | none => exact hp
  | some buf => exact hf buf

theorem keepsMode_ite {β : Type} {c : Prop} [Decidable c] {p q : Serial β} (hp : p.KeepsMode)
    (hq : q.KeepsMode) : (if c then p else q).KeepsMode := by
  split
  · exact hp
  · exact hq

/-- A stage whose failure ends the function. -/
theorem keepsMode_guarded {p q : Serial ℤ} (hp : p.KeepsMode) (hq : q.KeepsMode) :
    (do
      if (← p) = -1 then return -1
      q : Serial ℤ).KeepsMode :=
  keepsMode_bind hp fun _ => keepsMode_ite (keepsMode_pure _) hq

/-- A command that is to be answered by an OK. -/
theorem keepsMode_okCommand {cmd : List UInt8} {maxLen : ℕ} {timeout : UInt32} :
    (do
      match ← exchange cmd maxLen timeout with
      | none => return -1
      | some buf => if answers buf OK then return 0 else return -1 : Serial ℤ).KeepsMode :=
  keepsMode_asked (keepsMode_pure _) fun _ => keepsMode_ite (keepsMode_pure _) (keepsMode_pure _)

theorem keepsMode_modemRounds (rounds : ℕ) : (modemRounds rounds).KeepsMode := by
  induction rounds with
  | zero => exact keepsMode_pure _
  | succ rounds ih =>
      exact keepsMode_bind keepsMode_okCommand fun _ => keepsMode_ite (keepsMode_pure _) ih

theorem keepsMode_getRegistrationStatus (status : Option ℤ) :
    (cellularGetRegistrationStatus status).KeepsMode := by
  cases status with
  | none => trivial
  | some status =>
      intro sent
      refine keepsMode_ite trivial ?_
      intro buf rc
      exact keepsMode_ite trivial (keepsMode_ite trivial trivial)

theorem keepsMode_registeredRounds (rounds : ℕ) (status : ℤ) :
    (registeredRounds rounds status).KeepsMode := by
  induction rounds generalizing status with
  | zero => exact keepsMode_pure _
  | succ rounds ih =>
      refine keepsMode_bind (keepsMode_getRegistrationStatus _) fun r => ?_
      exact keepsMode_ite (keepsMode_pure _) (ih _)

theorem keepsMode_setOperator (mode operatorCode : ℤ) :
    (cellularSetOperator mode operatorCode).KeepsMode := by
  unfold cellularSetOperator
  split
  · exact keepsMode_pure _
  · exact keepsMode_okCommand

theorem keepsMode_operatorSearch (ops : List OperatorInfo) : (operatorSearch ops).KeepsMode := by
  induction ops with
  | nil => exact keepsMode_pure _
  | cons op ops ih =>
      refine keepsMode_bind (keepsMode_setOperator _ _) fun rc => keepsMode_ite ?_ ih
      refine keepsMode_bind (keepsMode_registeredRounds _ _) fun rc => ?_
      exact keepsMode_ite (keepsMode_pure _) ih

theorem keepsMode_getOperators (opList : Option (List OperatorInfo)) (maxops : ℤ)
    (numOpsFound : Option ℤ) : (cellularGetOperators opList maxops numOpsFound).KeepsMode := by
  refine keepsMode_ite (keepsMode_pure _) ?_
  split
  · refine keepsMode_ite (keepsMode_pure _) ?_
    exact keepsMode_asked (keepsMode_pure _) fun _ => keepsMode_pure _
  · exact keepsMode_pure _

theorem keepsMode_connectionProfile (inact : ℤ) :
    (cellularSetupInternetConnectionProfile inact).KeepsMode := by
  refine keepsMode_ite (keepsMode_pure _) (keepsMode_asked (keepsMode_pure _) fun _ => ?_)
  refine keepsMode_ite (keepsMode_pure _) (keepsMode_asked (keepsMode_pure _) fun _ => ?_)
  refine keepsMode_ite (keepsMode_pure _) ?_
  intro sent
  exact keepsMode_ite trivial fun _ _ => trivial

theorem keepsMode_serviceProfile (ip : Option (List UInt8)) (port keep : ℤ) :
    (cellularSetupInternetServiceProfile ip port keep).KeepsMode := by
  cases ip with
  | none => exact keepsMode_pure _
  | some ip =>
      refine keepsMode_ite (keepsMode_pure _) (keepsMode_asked (keepsMode_pure _) fun _ => ?_)
      refine keepsMode_ite (keepsMode_pure _) (keepsMode_asked (keepsMode_pure _) fun _ => ?_)
      exact keepsMode_ite (keepsMode_pure _) keepsMode_okCommand

/-- Nothing in the initialisation stores to `transparentMode`. -/
theorem keepsMode_socketInit (host : Option (List UInt8)) (port : ℤ) :
    (socketInit host port).KeepsMode := by
  refine keepsMode_guarded (keepsMode_guarded keepsMode_okCommand keepsMode_okCommand) ?_
  refine keepsMode_guarded (keepsMode_modemRounds _) ?_
  refine keepsMode_bind (keepsMode_getOperators _ _ _) fun found => ?_
  refine keepsMode_ite (keepsMode_pure _) ?_
  refine keepsMode_bind (keepsMode_operatorSearch _) fun _ => ?_
  refine keepsMode_guarded (keepsMode_connectionProfile _) ?_
  exact keepsMode_guarded (keepsMode_serviceProfile _ _ _) (keepsMode_pure _)

theorem keepsMode_askImei : askImei.KeepsMode :=
  keepsMode_asked (keepsMode_pure _) fun _ => keepsMode_pure _

/-- An exchange in command mode. -/
theorem careful_asked {β : Type} {cmd : List UInt8} {maxLen : ℕ} {timeout : UInt32}
    {post : Bool → Prop} {p : Serial β} {f : List UInt8 → Serial β}
    (hf : ∀ buf asked, (f buf).Careful post false asked) (asked : List UInt8) :
    (do
      match ← exchange cmd maxLen timeout with
      | none => p
      | some buf => f buf : Serial β).Careful post false asked := by
  have hsent : ¬ ((cmd.length : ℤ) = -1) := by omega
  show ((exchange cmd maxLen timeout).bind _).Careful post false asked
  simp only [exchange, Serial.bind, Careful, if_neg hsent]
  refine ⟨fun hmode => Bool.noConfusion hmode, ?_⟩
  intro got _
  have hrc : ¬ ((got.length : ℤ) = -1) := by omega
  rw [if_neg hrc]
  exact hf got cmd

/-- `CellularConnect` stores to `transparentMode` when both commands are sent. -/
theorem careful_connect (asked : List UInt8) :
    cellularConnect.Careful (fun _ => True) false asked := by
  refine careful_asked (fun buf asked => ?_) asked
  split
  · trivial
  · refine careful_asked (fun buf asked => ?_) asked
    split
    · trivial
    · trivial

/-- `CellularClose` sends its command in command mode, and leaves it there, when
its escape is answered. -/
theorem careful_close (mode : Bool) (asked : List UInt8) :
    (cellularClose mode).Careful (fun mode => mode = false) mode asked := by
  cases mode with
  | false => exact KeepsMode.careful keepsMode_okCommand asked
  | true =>
      refine ⟨fun _ => rfl, ?_⟩
      have hsent : ¬ ((STOP_TRANSPARENT.length : ℤ) = -1) := by omega
      dsimp only
      rw [if_neg hsent]
      intro got hgot
      have hrc : ¬ ((got.length : ℤ) = -1) := by omega
      have hescaped : ¬ ((!answers got OK && !answers got NO_CARRIER) = true) := by
        have hor := hgot rfl
        unfold escaped at hor
        simpa [or_iff_not_imp_left] using hor
      dsimp only
      rw [if_neg hrc, if_neg hescaped]
      exact KeepsMode.careful keepsMode_okCommand STOP_TRANSPARENT

/-! ## The invariant of the life cycle -/

/-- In which mode the program of a phase may end. -/
def LifePhase.post : LifePhase → Bool → Prop
  | .socketConnect => fun _ => True
  | _ => fun mode => mode = false

structure LifeInv (s : LifeCycle) : Prop where
  discipline : ModeDiscipline s
  start : s.phase = .runMqtt → s.transparentMode = false
  program : s.phase.atModem = true → s.prog.Careful s.phase.post s.transparentMode s.asked

theorem lifeInv_init : LifeInv {} where
  discipline := by simp [ModeDiscipline]
  start _ := rfl
  program h := by cases h

/-- One more call of `SerialSend`. -/
theorem ModeDiscipline.cons {s : LifeCycle} (h : ModeDiscipline s) {r : SendRecord}
    (hr : r.transparentMode = true → r.payload = true ∨ r.buf = STOP_TRANSPARENT) :
    ∀ r' ∈ r :: s.sends, r'.transparentMode = true →
      r'.payload = true ∨ r'.buf = STOP_TRANSPARENT := by
  intro r' hmem
  rcases List.mem_cons.mp hmem with rfl | hmem
  · exact hr
  · exact h r' hmem

theorem lifeInv_returned {s : LifeCycle} (h : LifeInv s) (hat : s.phase.atModem = true) {rc : ℤ}
    (hprog : s.prog = .pure rc) : LifeInv (returned s rc) := by
  have hpost : s.phase.post s.transparentMode := by
    have hprogram := h.program hat
    rw [hprog] at hprogram
    exact hprogram
  unfold returned
  cases hphase : s.phase with
  | socketInit =>
      rw [hphase] at hpost
      have hmode : s.transparentMode = false := hpost
      dsimp only
      split
      · exact ⟨h.discipline, fun hp => (by cases hp), fun hp => (by cases hp)⟩
      · refine ⟨h.discipline, fun hp => (by cases hp), fun _ => ?_⟩
        rw [hmode]
        exact keepsMode_askImei.careful s.asked
  | getImei =>
      rw [hphase] at hpost
      have hmode : s.transparentMode = false := hpost
      refine ⟨h.discipline, fun hp => (by cases hp), fun _ => ?_⟩
      dsimp only
      rw [hmode]
      exact careful_connect s.asked
  | socketConnect =>
      refine ⟨h.discipline, fun hp => ?_, fun hp => ?_⟩
      · dsimp only at hp
        split at hp <;> cases hp
      · dsimp only at hp
        split at hp <;> cases hp
  | socketDeInit =>
      rw [hphase] at hpost
      exact ⟨h.discipline, fun _ => hpost, fun hp => (by cases hp)⟩
  | _ => exact absurd hat (by simp [hphase, LifePhase.atModem])

theorem lifeInv_libraryDone {s t : LifeCycle} (h : LifeInv s) {ok : Bool}
    (hdone : libraryDone s ok = some t) : LifeInv t := by
  unfold libraryDone at hdone
  cases hphase : s.phase with
  | disconnect =>
      rw [hphase] at hdone
      cases hdone
      exact ⟨h.discipline, fun hp => (by cases hp), fun _ => careful_close _ _⟩
  | publish =>
      rw [hphase] at hdone
      cases hdone
      exact ⟨h.discipline, fun hp => (by cases hp), fun hp => (by cases hp)⟩
  | lwtConnect =>
      rw [hphase] at hdone
      cases hdone
      refine ⟨h.discipline, fun hp => ?_, fun hp => ?_⟩
      all_goals cases ok <;> cases hp
  | subscribes =>
      rw [hphase] at hdone
      cases hdone
      refine ⟨h.discipline, fun hp => ?_, fun hp => ?_⟩
      all_goals cases ok <;> cases hp
  | _ =>
      rw [hphase] at hdone
      cases hdone

section

variable {host : Option (List UInt8)} {port : ℤ}

/-- One access of a program to the line or to the mode. -/
theorem lifeInv_next {s t : LifeCycle} (h : LifeInv s)
    (hstep : lifeStep host port s .next = some t) : LifeInv t := by
  simp only [lifeStep] at hstep
  split at hstep
  · rename_i hat
    have hprogram := h.program hat
    have hstart : s.phase ≠ .runMqtt := by
      intro hp
      rw [hp] at hat
      cases hat
    cases hprog : s.prog with
    | pure rc =>
        rw [hprog] at hstep
        cases hstep
        exact lifeInv_returned h hat hprog
    | flush k =>
        rw [hprog] at hstep hprogram
        cases hstep
        exact ⟨h.discipline, h.start, fun _ => hprogram⟩
    | send buf k =>
        rw [hprog] at hstep hprogram
        cases hstep
        refine ⟨h.discipline.cons fun hmode => Or.inr (hprogram.1 hmode), h.start, ?_⟩
        exact fun _ => hprogram.2
    | recv maxLen timeout k =>
        rw [hprog] at hstep
        cases hstep
    | setTransparentMode b k =>
        rw [hprog] at hstep hprogram
        cases hstep
        exact ⟨h.discipline, fun hp => absurd hp hstart, fun _ => hprogram⟩
  · cases hstep

theorem lifeInv_recv {s t : LifeCycle} (h : LifeInv s) {got : List UInt8}
    (hcond : EscapeAnswered s (.recv got)) (hstep : lifeStep host port s (.recv got) = some t) :
    LifeInv t := by
  simp only [lifeStep] at hstep
  split at hstep
  · rename_i hat
    have hprogram := h.program hat
    cases hprog : s.prog with
    | recv maxLen timeout k =>
        rw [hprog] at hstep hprogram
        dsimp only at hstep
        split at hstep
        · cases hstep
          exact ⟨h.discipline, h.start, fun _ => hprogram got (hcond got rfl)⟩
        · cases hstep
    | _ =>
        rw [hprog] at hstep
        cases hstep
  · cases hstep

theorem lifeInv_step (s : LifeCycle) (a : LifeAct) (t : LifeCycle) (h : LifeInv s)
    (hcond : EscapeAnswered s a) (hstep : lifeStep host port s a = some t) : LifeInv t := by
  cases a with
  | clientInit ok =>
      simp only [lifeStep] at hstep
      split at hstep
      · rename_i hphase
        cases hstep
        split
        · refine ⟨h.discipline, fun hp => (by cases hp), fun _ => ?_⟩
          dsimp only
          rw [h.start hphase]
          exact (keepsMode_socketInit host port).careful s.asked
        · exact h
      · cases hstep
  | next => exact lifeInv_next h hstep
  | recv got => exact lifeInv_recv h hcond hstep
  | write payload =>
      simp only [lifeStep] at hstep
      split at hstep
      · cases hstep
        exact ⟨h.discipline.cons fun _ => Or.inl rfl, h.start, h.program⟩
      · cases hstep
  | done ok => exact lifeInv_libraryDone h hstep

/-- **No command in data mode, once every escape is answered.** In every run of
the life cycle in which each reply received after `+++` has an OK or a NO
CARRIER, whatever else the modem replies and the library does, only payload and
the escape are sent while `transparentMode` is 1. -/
theorem mode_discipline (acts : List LifeAct) (s : LifeCycle)
    (hcond : Machine.Along (lifeStep host port) EscapeAnswered {} acts)
    (hrun : Machine.run (lifeStep host port) {} acts = some s) : ModeDiscipline s :=
  (Machine.run_inv_of_along lifeInv_step lifeInv_init hcond hrun).discipline

end

/-! An attempt connects to the broker, which does not answer; the connection is
closed, and the next attempt sends its first command. -/

/-- Flush, command and reply, for each of the replies. -/
def asks (replies : List (List UInt8)) : List LifeAct :=
  replies.flatMap fun reply => [.next, .next, .recv reply]

/-- From `run_mqtt` to the established connection. -/
def connectRun : List LifeAct :=
  .clientInit true :: asks oneOperator ++ .next :: asks [ascii "\r\n351562112345678\r\n\r\nOK\r\n"] ++
    .next :: asks [OK, CONNECT] ++ [.next, .next]

/-- `MqttClient_Connect` fails, and `on_fail` writes a disconnect packet and
starts to close. -/
def failRun : List LifeAct :=
  connectRun ++ [.write [0x10, 0x00], .done false, .write [0xE0, 0x00], .done true, .next]

/-- The escape is not answered, and `run_mqtt` is called again. -/
def unansweredRun : List LifeAct :=
  failRun ++ [.recv [], .next, .clientInit true, .next, .next]

/-- The escape and the command after it are answered, and `run_mqtt` is called
again. -/
def answeredRun : List LifeAct :=
  failRun ++ .recv OK :: .next :: asks [OK] ++ [.next, .clientInit true, .next, .next]

def brokerStep : LifeCycle → LifeAct → Option LifeCycle :=
  lifeStep (some (ascii "35.169.0.97")) 1883

/-- The first command of the next attempt is sent in data mode. -/
theorem command_in_data_mode :
    ∃ s, Machine.run brokerStep {} unansweredRun = some s ∧ ¬ ModeDiscipline s := by
  have hresult : (Machine.run brokerStep {} unansweredRun).map (fun s => s.sends.head?) =
      some (some ⟨false, ECHO_OFF, true⟩) := by
    decide +kernel
  obtain ⟨s, hrun, hlast⟩ := Option.map_eq_some_iff.mp hresult
  refine ⟨s, hrun, ?_⟩
  intro hdiscipline
  rcases hdiscipline _ (List.mem_of_mem_head? hlast) rfl with hpayload | hescape
  · cases hpayload
  · exact absurd hescape (by decide +kernel)

instance (s : LifeCycle) (a : LifeAct) : Decidable (EscapeAnswered s a) :=
  match a with
  | .recv got => decidable_of_iff (s.asked = STOP_TRANSPARENT → escaped got = true) (by
      simp [EscapeAnswered])
  | .clientInit _ | .next | .write _ | .done _ => isTrue (by simp [EscapeAnswered])

theorem answeredRun_discipline :
    ∃ s, Machine.run brokerStep {} answeredRun = some s ∧ ModeDiscipline s ∧
      s.sends.head? = some ⟨false, ECHO_OFF, false⟩ := by
  have hresult : (Machine.run brokerStep {} answeredRun).map (fun s => s.sends.head?) =
      some (some ⟨false, ECHO_OFF, false⟩) := by
    decide +kernel
  obtain ⟨s, hrun, hlast⟩ := Option.map_eq_some_iff.mp hresult
  have hcond : Machine.Along brokerStep EscapeAnswered {} answeredRun := by decide +kernel
  exact ⟨s, hrun, mode_discipline answeredRun s hcond hrun, hlast⟩

end SmartDoorLock
