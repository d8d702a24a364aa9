import SmartDoorLock.Cellular.Program
import SmartDoorLock.Lib.CToken

/-!
# Starting the modem and finding an operator

The functions of `cellular.c` that `SocketInit` calls before the profiles: the
initial options, the wait for the modem, the list of operators with its parser,
and the wait for the registration. The parser works on the 1024 bytes of the
reply buffer, in which `strtok` overwrites the ends of the tokens.
-/

namespace SmartDoorLock

open CText

abbrev ROUNDS : ℕ := 7

def MEDIUM_TIME : UInt32 := 60000

def ECHO_OFF : List UInt8 := ascii "ATE0\r\n"
def CGSN : List UInt8 := ascii "AT+CGSN\r\n"
def CREG : List UInt8 := ascii "AT+CREG?\r\n"
def COPS : List UInt8 := ascii "AT+COPS=?\r\n"
def SCFG : List UInt8 := ascii "AT^SCFG=\"Tcp/WithURCs\",\"on\"\r\n"

def PBREADY : List UInt8 := ascii "+PBREADY"

/-! ## Initial options -/

/-- `Options`. -/
inductive InitOptions where
  | all
  | echoAndScfg
  | scfg
  | waitToStart
  | turnEchoOff
  | noneOp
deriving DecidableEq, Repr

/-- The wait for `+PBREADY`. -/
def waitPbready : Serial ℤ :=
  .recv 50 MEDIUM_TIME fun buf rc =>
    .pure (if rc = -1 then -1 else if answers buf PBREADY then 0 else -1)

/-- A command of the initial options, which is to be answered by an OK. -/
def initCommand (cmd : List UInt8) : Serial ℤ := do
  match ← exchange cmd 50 SHORT_TIME with
  | none => return -1
  | some buf => if answers buf OK then return 0 else return -1

/-- `initialization_options`; the first three cases fall through. -/
def initializationOptions : InitOptions → Serial ℤ
  | .all => do
      if (← waitPbready) = -1 then return -1
      if (← initCommand ECHO_OFF) = -1 then return -1
      initCommand SCFG
  | .echoAndScfg => do
      if (← initCommand ECHO_OFF) = -1 then return -1
      initCommand SCFG
  | .scfg => initCommand SCFG
  | .waitToStart => waitPbready
  | .turnEchoOff => initCommand ECHO_OFF
  | .noneOp => return 0

/-- `SerialInit`, which sets up the UART and cannot fail. -/
def serialInit : ℤ := 0

/-- `CellularInit`. -/
def cellularInit : Serial ℤ := do
  if serialInit = -1 then return -1
  initializationOptions .echoAndScfg

/-! ## The modem responds -/

/-- The loop of `CellularWaitUntilModemResponds`, with `rounds` to go. -/
def modemRounds : ℕ → Serial ℤ
  | 0 => return -1
  | rounds + 1 => do
      if (← cellularCheckModem) = 0 then return 0
      modemRounds rounds

/-- `CellularWaitUntilModemResponds`. -/
def cellularWaitUntilModemResponds : Serial ℤ := modemRounds ROUNDS

/-! ## Registration -/

/-- The status that stands behind the first comma of a reply: 25 bytes are
received into a zeroed buffer of 30. -/
def regStatus (got : List UInt8) : ℤ :=
  let buf := received 30 got
  (byteAt buf (scanPast 44 buf 24 0)).toNat - 48

/-- `CellularGetRegistrationStatus`, with the value behind `status` (`none` for
`NULL`) before and after it. The value is stored before it is checked. -/
def cellularGetRegistrationStatus (status : Option ℤ) : Serial (ℤ × Option ℤ) :=
  match status with
  | none => .pure (-1, none)
  | some status =>
      .flush <| .send CREG fun sent =>
        if sent = -1 then .pure (-1, some status)
        else .recv 25 SHORT_TIME fun buf rc =>
          if rc < 11 then .pure (-1, some status)
          else if regStatus buf < 0 ∨ regStatus buf > 5 then .pure (-1, some (regStatus buf))
          else .pure (0, some (regStatus buf))

/-- The loop of `CellularWaitUntilRegistered`, with `rounds` to go. -/
def registeredRounds : ℕ → ℤ → Serial ℤ
  | 0, _ => return -1
  | rounds + 1, status => do
      let r ← cellularGetRegistrationStatus (some status)
      let status := r.2.getD status
      if r.1 = 0 ∧ (status = 1 ∨ status = 5) then return 0
      registeredRounds rounds status

/-- `CellularWaitUntilRegistered`. -/
def cellularWaitUntilRegistered : Serial ℤ := registeredRounds ROUNDS 0

/-! ## The list of operators -/

/-- `OP_STATUS`. -/
inductive OpStatus where
  | unknownOperator
  | operatorAvailable
  | currentOperator
  | operatorForbidden
deriving DecidableEq, Repr

/-- `OPERATOR_INFO`, zeroed. -/
structure OperatorInfo where
  operatorName : List UInt8 := List.replicate 30 0
  operatorCode : ℤ := 0
  accessTechnology : List UInt8 := List.replicate 4 0
  operatorStatus : OpStatus := .unknownOperator
deriving DecidableEq, Repr

/-- The `switch` on the status digit. -/
def opStatus (b : UInt8) : Option OpStatus :=
  if b = 48 then some .unknownOperator
  else if b = 49 then some .operatorAvailable
  else if b = 50 then some .currentOperator
  else if b = 51 then some .operatorForbidden
  else none

/-- The `switch` on the technology digit. -/
def opTechnology (b : UInt8) : Option (List UInt8) :=
  if b = 48 then some (ascii "2G") else if b = 50 then some (ascii "3G") else none

/-- The end of `pars_op`, with the four tokens found. The length of the name is
a `size_t`, and wraps for a token of one byte. -/
def parsTokens (buf : List UInt8) (start len : ℕ) (opInfo : OperatorInfo)
    (status opname opnum technology : ℕ) : ℤ × OperatorInfo :=
  if technology + strlenAt buf technology - start > len then (-1, opInfo)
  else
    match opStatus (byteAt buf status) with
    | none => (-1, opInfo)
    | some operatorStatus =>
        let opInfo := { opInfo with operatorStatus := operatorStatus }
        match opTechnology (byteAt buf technology) with
        | none => (-1, opInfo)
        | some tech =>
            let nameLen := sizeSub (strlenAt buf opname) 2
            (0, { opInfo with
              accessTechnology := memcpy opInfo.accessTechnology tech 2
              operatorCode := strtol (cstr (buf.drop opnum))
              operatorName := memcpy opInfo.operatorName (buf.drop (opname + 1)) nameLen })

/-- `pars_op`: the return code, the buffer and `*op_info` after it. -/
def parsOp (buf : List UInt8) (start len : ℕ) (opInfo : OperatorInfo) :
    ℤ × List UInt8 × OperatorInfo :=
  let (status, t) := strtok (some start) (ascii ",") ⟨buf, none⟩
  let (opname, t) := strtok none (ascii ",") t
  let (_, t) := strtok none (ascii ",") t
  let (opnum, t) := strtok none (ascii ",\"") t
  let (technology, t) := strtok none (ascii ",\")") t
  match status, opname, opnum, technology with
  | some status, some opname, some opnum, some technology =>
      let r := parsTokens t.buf start len opInfo status opname opnum technology
      (r.1, t.buf, r.2)
  | _, _, _, _ => (-1, t.buf, opInfo)

/-- What `CellularGetOperators` leaves: its return code, `opList` and
`*numOpsFound`, with `none` for `NULL`. -/
structure OperatorsFound where
  rc : ℤ
  opList : Option (List OperatorInfo)
  numOpsFound : Option ℤ
deriving DecidableEq, Repr

/-- The loop of `CellularGetOperators` over the entries of the reply, with
`rounds` of the `maxops` passes to go and `ptr` as an index. -/
def operatorsLoop (maxops : ℕ) : ℕ → List UInt8 → ℕ → List OperatorInfo → OperatorsFound
  | 0, _, _, opList => ⟨0, some opList, some maxops⟩
  | rounds + 1, buf, ptr, opList =>
      let i := maxops - (rounds + 1)
      -- `ptr + count` after the search for the bracket
      let next := scanPast 41 (buf.drop ptr) (1023 - ptr) ptr
      if next ≥ 1024 then ⟨0, some opList, some i⟩
      else
        let (rc, buf, opInfo) := parsOp buf (ptr + 1) (next - ptr) (opList.getD i {})
        let opList := opList.set i opInfo
        if rc ≠ 0 then ⟨-1, some opList, some 0⟩
        else operatorsLoop maxops rounds buf (next + 1) opList

/-- What `CellularGetOperators` makes of a reply: 1023 bytes are received into
a zeroed buffer of 1024. -/
def parsOperators (got : List UInt8) (maxops : ℕ) (opList : List OperatorInfo) : OperatorsFound :=
  let buf := received 1024 got
  operatorsLoop maxops maxops buf (scanPast 32 buf 1022 0) opList

/-- `CellularGetOperators`. -/
def cellularGetOperators (opList : Option (List OperatorInfo)) (maxops : ℤ)
    (numOpsFound : Option ℤ) : Serial OperatorsFound := do
  if maxops = 0 then return ⟨0, opList, numOpsFound⟩
  match opList, numOpsFound with
  | some ops, some _ =>
      if maxops < 0 then return ⟨-1, opList, numOpsFound⟩
      match ← exchange COPS 1023 LONG_TIME with
      | none => return ⟨-1, opList, numOpsFound⟩
      | some got => return parsOperators got maxops.toNat ops
  | _, _ => return ⟨-1, opList, numOpsFound⟩

end SmartDoorLock
