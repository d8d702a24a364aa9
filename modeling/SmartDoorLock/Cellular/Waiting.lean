import Mathlib.Algebra.GroupWithZero.Nat
import SmartDoorLock.Cellular.LifeCycle

/-!
# How long an attempt can take

The functions of `cellular.c` retry: the modem is asked seven times for a sign of
life, the registration seven times for each of up to 25 operators. Each reception
waits no longer than its timeout, so an attempt to connect is bounded, whatever the
modem answers and whether the calls fail.

The bound is proved once for an arbitrary cost of a reception. A cost of one counts
the receptions, the timeout as the cost bounds the time.
-/

namespace SmartDoorLock

open Machine

namespace Serial

variable {α β : Type}

/-! ## Budgets -/

section

-- what a reception costs
variable (cost : ℕ → UInt32 → ℕ)

/-- Whatever its calls return, the program ends within the budget, with a result in
`Q`. -/
def Within (Q : α → Prop) : ℕ → Serial α → Prop
  | _, .pure a => Q a
  | n, .flush k => k.Within Q n
  | n, .send _ k => ∀ rc, (k rc).Within Q n
  | n, .recv maxLen timeout k =>
      cost maxLen timeout ≤ n ∧ ∀ buf rc, (k buf rc).Within Q (n - cost maxLen timeout)
  | n, .setTransparentMode _ k => k.Within Q n

end

variable {cost : ℕ → UInt32 → ℕ} {Q : α → Prop} {R : β → Prop}

theorem Within.mono {Q' : α → Prop} {m n : ℕ} {p : Serial α} (h : p.Within cost Q m) (hle : m ≤ n)
    (hQ : ∀ a, Q a → Q' a) : p.Within cost Q' n := by
  induction p generalizing m n with
  | pure a => exact hQ a h
  | flush k ih => exact ih h hle
  | send buf k ih => exact fun rc => ih rc (h rc) hle
  | recv maxLen timeout k ih =>
      exact ⟨h.1.trans hle, fun buf rc => ih buf rc (h.2 buf rc) (Nat.sub_le_sub_right hle _)⟩
  | setTransparentMode b k ih => exact ih h hle

/-- **Sequencing** adds the budgets. -/
theorem Within.bind {m n : ℕ} {p : Serial α} {f : α → Serial β} (hp : p.Within cost Q m)
    (hf : ∀ a, Q a → (f a).Within cost R n) : (p >>= f).Within cost R (m + n) := by
  show (p.bind f).Within cost R (m + n)
  induction p generalizing m with
  | pure a => exact (hf a hp).mono (Nat.le_add_left n m) fun _ h => h
  | flush k ih => exact ih hp
  | send buf k ih => exact fun rc => ih rc (hp rc)
  | recv maxLen timeout k ih =>
      refine ⟨hp.1.trans (Nat.le_add_right m n), fun buf rc => ?_⟩
      have hrest : m + n - cost maxLen timeout = m - cost maxLen timeout + n :=
        Nat.sub_add_comm hp.1
      rw [hrest]
      exact ih buf rc (hp.2 buf rc)
  | setTransparentMode b k ih => exact ih hp

theorem within_pure {a : α} (h : Q a) (n : ℕ) : (Pure.pure a : Serial α).Within cost Q n := h

theorem within_ite {c : Prop} [Decidable c] {n : ℕ} {p q : Serial α} (hp : p.Within cost Q n)
    (hq : q.Within cost Q n) : (if c then p else q).Within cost Q n := by
  split
  · exact hp
  · exact hq

/-! ## What a run costs -/

/-- The results of the calls of a run, each by its number. -/
structure Line where
  sent : ℕ → ℤ
  got : ℕ → List UInt8 × ℤ

/-- What a run has done so far. -/
structure Spent where
  sends : ℕ := 0
  /-- the receptions, each with its length and timeout, the latest first -/
  recvs : List (ℕ × UInt32) := []
deriving DecidableEq, Repr

/-- The result of the program on a line, and what it has spent. -/
def spend (line : Line) : Serial α → Spent → α × Spent
  | .pure a, s => (a, s)
  | .flush k, s => k.spend line s
  | .send _ k, s => (k (line.sent s.sends)).spend line { s with sends := s.sends + 1 }
  | .recv maxLen timeout k, s =>
      (k (line.got s.recvs.length).1 (line.got s.recvs.length).2).spend line
        { s with recvs := (maxLen, timeout) :: s.recvs }
  | .setTransparentMode _ k, s => k.spend line s

/-- The cost of the receptions. -/
def Spent.costs (cost : ℕ → UInt32 → ℕ) (s : Spent) : ℕ := (s.recvs.map fun r => cost r.1 r.2).sum

/-- **A run stays within the budget**, on every line. -/
theorem Within.spend {n : ℕ} {p : Serial α} (h : p.Within cost Q n) (line : Line) (s : Spent) :
    Q (p.spend line s).1 ∧ (p.spend line s).2.costs cost ≤ s.costs cost + n := by
  induction p generalizing n s with
  | pure a => exact ⟨h, Nat.le_add_right _ _⟩
  | flush k ih => exact ih h s
  | send buf k ih => exact ih _ (h _) _
  | recv maxLen timeout k ih =>
      obtain ⟨hQ, hcosts⟩ := ih (line.got s.recvs.length).1 (line.got s.recvs.length).2 (h.2 _ _)
        { s with recvs := (maxLen, timeout) :: s.recvs }
      have hmore : Spent.costs cost { s with recvs := (maxLen, timeout) :: s.recvs } =
          cost maxLen timeout + s.costs cost := rfl
      have hle := h.1
      refine ⟨hQ, hcosts.trans ?_⟩
      omega
  | setTransparentMode b k ih => exact ih h s

theorem costs_one (s : Spent) : s.costs (fun _ _ => 1) = s.recvs.length := by
  unfold Spent.costs
  rw [List.map_const', List.sum_replicate_nat, Nat.mul_one]

end Serial

open Serial

/-! ## The functions -/

/-- A return code. -/
def IsCode (rc : ℤ) : Prop := rc = 0 ∨ rc = -1

section

variable {cost : ℕ → UInt32 → ℕ} {β : Type} {Q : β → Prop} {n : ℕ} {cmd : List UInt8} {maxLen : ℕ}
  {timeout : UInt32}

/-- The cost of an exchange and what is done with the reply. -/
theorem within_asked {p : Serial β} {f : List UInt8 → Serial β} (hp : p.Within cost Q n)
    (hf : ∀ buf, (f buf).Within cost Q n) :
    (do
      match ← exchange cmd maxLen timeout with
      | none => p
      | some buf => f buf : Serial β).Within cost Q (cost maxLen timeout + n) := by
  have hexchange : (exchange cmd maxLen timeout).Within cost (fun _ => True)
      (cost maxLen timeout) := by
    intro sent
    dsimp only
    split
    · trivial
    · refine ⟨le_rfl, fun buf rc => ?_⟩
      dsimp only
      split <;> trivial
  refine hexchange.bind fun got _ => ?_
  cases got with
  | none => exact hp
  | some buf => exact hf buf

theorem isCode_zero : IsCode 0 := Or.inl rfl

theorem isCode_error : IsCode (-1) := Or.inr rfl

/-- A command that is to be answered by an OK. -/
theorem within_okCommand :
    (do
      match ← exchange cmd maxLen timeout with
      | none => return -1
      | some buf => if answers buf OK then return 0 else return -1 : Serial ℤ).Within cost IsCode
        (cost maxLen timeout) :=
  within_asked (n := 0) (within_pure isCode_error _) fun _ =>
    within_ite (within_pure isCode_zero _) (within_pure isCode_error _)

/-- A stage whose failure ends the function. -/
theorem within_guarded {m : ℕ} {p q : Serial ℤ} (hp : p.Within cost IsCode m)
    (hq : q.Within cost IsCode n) :
    (do
      if (← p) = -1 then return -1
      q : Serial ℤ).Within cost IsCode (m + n) :=
  hp.bind fun _ _ => within_ite (within_pure isCode_error _) hq

theorem within_modemRounds (rounds : ℕ) :
    (modemRounds rounds).Within cost IsCode (rounds * cost 10 SHORT_TIME) := by
  induction rounds with
  | zero => exact isCode_error
  | succ rounds ih =>
      rw [Nat.succ_mul, Nat.add_comm]
      exact within_okCommand.bind fun _ _ => within_ite (within_pure isCode_zero _) ih

theorem within_getRegistrationStatus (status : Option ℤ) :
    (cellularGetRegistrationStatus status).Within cost (fun _ => True) (cost 25 SHORT_TIME) := by
  cases status with
  | none => trivial
  | some status =>
      intro sent
      refine within_ite trivial ?_
      exact ⟨le_rfl, fun buf rc => within_ite trivial (within_ite trivial trivial)⟩

theorem within_registeredRounds (rounds : ℕ) (status : ℤ) :
    (registeredRounds rounds status).Within cost IsCode (rounds * cost 25 SHORT_TIME) := by
  induction rounds generalizing status with
  | zero => exact isCode_error
  | succ rounds ih =>
      rw [Nat.succ_mul, Nat.add_comm]
      refine (within_getRegistrationStatus _).bind fun r _ => ?_
      exact within_ite (within_pure isCode_zero _) (ih _)

theorem within_setOperator (mode operatorCode : ℤ) :
    (cellularSetOperator mode operatorCode).Within cost IsCode (cost 10 LONG_TIME) := by
  unfold cellularSetOperator
  split
  · exact within_pure isCode_error _
  · exact within_okCommand

/-- What an operator may cost: it accepts, and never registers. -/
def operatorCost (cost : ℕ → UInt32 → ℕ) : ℕ := cost 10 LONG_TIME + ROUNDS * cost 25 SHORT_TIME

theorem within_operatorSearch (ops : List OperatorInfo) :
    (operatorSearch ops).Within cost (fun _ => True) (ops.length * operatorCost cost) := by
  induction ops with
  | nil => trivial
  | cons op ops ih =>
      have hcost : (op :: ops).length * operatorCost cost = cost 10 LONG_TIME +
          (ROUNDS * cost 25 SHORT_TIME + ops.length * operatorCost cost) := by
        rw [List.length_cons, Nat.succ_mul, operatorCost]
        omega
      rw [hcost]
      refine (within_setOperator _ _).bind fun rc _ => within_ite ?_ ?_
      · refine (within_registeredRounds _ _).bind fun rc _ => ?_
        exact within_ite (within_pure trivial _) ih
      · exact ih.mono (Nat.le_add_left _ _) fun _ h => h

/-- No entry is added to the list of operators. -/
theorem length_operatorsLoop {maxops rounds ptr : ℕ} {buf : List UInt8}
    {opList ops : List OperatorInfo}
    (h : (operatorsLoop maxops rounds buf ptr opList).opList = some ops) :
    ops.length = opList.length := by
  induction rounds generalizing buf ptr opList with
  | zero =>
      cases h
      rfl
  | succ rounds ih =>
      simp only [operatorsLoop] at h
      split at h
      · cases h
        rfl
      · split at h
        · cases h
          exact List.length_set
        · rw [ih h, List.length_set]

/-- At most as many operators are tried as `oplist` has entries. -/
theorem within_getOperators :
    (cellularGetOperators (some noOperators) 25 (some 0)).Within cost
      (fun found => found.listed.length ≤ 25) (cost 1023 LONG_TIME) := by
  have hlisted : ∀ found : OperatorsFound,
      (∀ ops, found.opList = some ops → ops.length = 25) → found.listed.length ≤ 25 := by
    intro found hops
    rw [OperatorsFound.listed, List.length_take]
    cases hlist : found.opList with
    | none => exact (Nat.min_le_right _ _).trans (Nat.zero_le _)
    | some ops => exact (Nat.min_le_right _ _).trans (hops ops hlist).le
  have hnone : noOperators.length = 25 := List.length_replicate
  unfold cellularGetOperators
  rw [if_neg (by decide)]
  refine within_ite ?_ (within_asked (n := 0) ?_ fun got => ?_)
  · exact hlisted _ fun ops hops => Option.some.inj hops ▸ hnone
  · exact hlisted _ fun ops hops => Option.some.inj hops ▸ hnone
  · exact hlisted _ fun ops hops => (length_operatorsLoop hops).trans hnone

theorem within_connectionProfile (inact : ℤ) :
    (cellularSetupInternetConnectionProfile inact).Within cost IsCode (3 * cost 9 SHORT_TIME) := by
  have hcost : 3 * cost 9 SHORT_TIME =
      cost 9 SHORT_TIME + (cost 9 SHORT_TIME + cost 9 SHORT_TIME) := by omega
  rw [hcost]
  refine within_ite (within_pure isCode_error _)
    (within_asked (within_pure isCode_error _) fun _ => ?_)
  refine within_ite (within_pure isCode_error _)
    (within_asked (within_pure isCode_error _) fun _ => ?_)
  refine within_ite (within_pure isCode_error _) ?_
  intro sent
  refine within_ite isCode_error ⟨le_rfl, fun buf rc => ?_⟩
  show IsCode (if answers buf OK = true then 0 else -1)
  split
  · exact isCode_zero
  · exact isCode_error

theorem within_serviceProfile (ip : Option (List UInt8)) (port keep : ℤ) :
    (cellularSetupInternetServiceProfile ip port keep).Within cost IsCode
      (3 * cost 9 SHORT_TIME) := by
  have hcost : 3 * cost 9 SHORT_TIME =
      cost 9 SHORT_TIME + (cost 9 SHORT_TIME + cost 9 SHORT_TIME) := by omega
  rw [hcost]
  cases ip with
  | none => exact isCode_error
  | some ip =>
      refine within_ite (within_pure isCode_error _)
        (within_asked (within_pure isCode_error _) fun _ => ?_)
      refine within_ite (within_pure isCode_error _)
        (within_asked (within_pure isCode_error _) fun _ => ?_)
      exact within_ite (within_pure isCode_error _) within_okCommand

/-! ## `SocketInit` -/

/-- What `SocketInit` may cost. -/
def socketInitCost (cost : ℕ → UInt32 → ℕ) : ℕ :=
  2 * cost 50 SHORT_TIME + ROUNDS * cost 10 SHORT_TIME + cost 1023 LONG_TIME +
    25 * operatorCost cost + 6 * cost 9 SHORT_TIME

theorem within_socketInit (host : Option (List UInt8)) (port : ℤ) :
    (socketInit host port).Within cost IsCode (socketInitCost cost) := by
  have hcost : socketInitCost cost = (cost 50 SHORT_TIME + cost 50 SHORT_TIME) +
      (ROUNDS * cost 10 SHORT_TIME + (cost 1023 LONG_TIME + (25 * operatorCost cost +
        (3 * cost 9 SHORT_TIME + (3 * cost 9 SHORT_TIME + 0))))) := by
    unfold socketInitCost
    omega
  rw [hcost]
  refine within_guarded (within_guarded within_okCommand within_okCommand) ?_
  refine within_guarded (within_modemRounds _) ?_
  refine within_getOperators.bind fun found hfound => ?_
  refine within_ite (within_pure isCode_error _) ?_
  have hsearch : (operatorSearch found.listed).Within cost (fun _ => True)
      (25 * operatorCost cost) :=
    (within_operatorSearch _).mono (Nat.mul_le_mul_right _ hfound) fun _ h => h
  refine hsearch.bind fun _ _ => ?_
  refine within_guarded (within_connectionProfile _) ?_
  exact within_guarded (within_serviceProfile _ _ _) (within_pure isCode_zero _)

end

/-- **`SocketInit` comes to an end.** Whatever the modem answers, cuts short or leaves
out, and whichever calls fail, it returns 0 or -1 after at most 216 receptions, whose
timeouts add up to an hour and 90 seconds at most. A list of operators on which
`pars_op` writes out of bounds is run as if the write did no harm. -/
theorem socketInit_bounded (host : Option (List UInt8)) (port : ℤ) (line : Line) :
    IsCode ((socketInit host port).spend line {}).1 ∧
      ((socketInit host port).spend line {}).2.recvs.length ≤ 216 ∧
      (((socketInit host port).spend line {}).2.recvs.map fun r => r.2.toNat).sum ≤ 3690000 := by
  obtain ⟨hcode, hcount⟩ := (@within_socketInit (fun _ _ => 1) host port).spend line {}
  obtain ⟨-, htime⟩ :=
    (@within_socketInit (fun _ timeout => timeout.toNat) host port).spend line {}
  rw [costs_one] at hcount
  exact ⟨hcode, hcount, htime⟩

/-! ## Attempts -/

section

variable {cost : ℕ → UInt32 → ℕ}

theorem within_askImei :
    askImei.Within cost (fun _ => True) (cost 49 SHORT_TIME) :=
  within_asked (n := 0) (within_pure trivial _) fun _ => within_pure trivial _

theorem within_connect :
    cellularConnect.Within cost (fun _ => True) (cost 18 SHORT_TIME + cost 18 SHORT_TIME) := by
  refine within_asked (within_pure trivial _) fun _ => within_ite (within_pure trivial _) ?_
  exact within_asked (n := 0) (within_pure trivial _) fun _ =>
    within_ite (within_pure trivial _) trivial

theorem within_close (mode : Bool) :
    (cellularClose mode).Within cost (fun _ => True) (cost 15 SHORT_TIME + cost 9 SHORT_TIME) := by
  have hcommand : closeCommand.Within cost (fun _ => True) (cost 9 SHORT_TIME) :=
    within_okCommand.mono le_rfl fun _ _ => trivial
  cases mode with
  | false => exact hcommand.mono (Nat.le_add_left _ _) fun _ h => h
  | true =>
      intro sent
      refine within_ite trivial ⟨Nat.le_add_right _ _, fun buf rc => ?_⟩
      rw [Nat.add_sub_cancel_left]
      exact within_ite trivial (within_ite trivial hcommand)

/-- What is left of an attempt after the program or library call in progress. -/
def LifePhase.after (cost : ℕ → UInt32 → ℕ) : LifePhase → ℕ
  | .runMqtt | .socketDeInit => 0
  | .socketInit => cost 49 SHORT_TIME + (cost 18 SHORT_TIME + cost 18 SHORT_TIME) +
      (cost 15 SHORT_TIME + cost 9 SHORT_TIME)
  | .getImei => (cost 18 SHORT_TIME + cost 18 SHORT_TIME) + (cost 15 SHORT_TIME + cost 9 SHORT_TIME)
  | _ => cost 15 SHORT_TIME + cost 9 SHORT_TIME

/-- What an attempt may cost. -/
def attemptCost (cost : ℕ → UInt32 → ℕ) : ℕ :=
  socketInitCost cost + LifePhase.socketInit.after cost

/-- What may be spent on the modem before the next attempt. -/
def Left (cost : ℕ → UInt32 → ℕ) (s : LifeCycle) (m : ℕ) : Prop :=
  ∃ n, (s.phase.atModem = true → s.prog.Within cost (fun _ => True) n) ∧
    n + s.phase.after cost ≤ m

/-- The cost of a step: that of the reception that returns. -/
def modemCost (cost : ℕ → UInt32 → ℕ) (s : LifeCycle) : LifeAct → ℕ
  | .recv _ =>
      match s.prog with
      | .recv maxLen timeout _ => cost maxLen timeout
      | _ => 0
  | _ => 0

/-- An attempt begins. -/
def attemptCredit (cost : ℕ → UInt32 → ℕ) (_ : LifeCycle) (a : LifeAct) : ℕ :=
  if a = .clientInit true then attemptCost cost else 0

theorem left_returned {s : LifeCycle} {m : ℕ} (h : Left cost s m) (hat : s.phase.atModem = true)
    (rc : ℤ) : Left cost (returned s rc) m := by
  obtain ⟨n, -, hm⟩ := h
  unfold returned
  cases hphase : s.phase with
  | socketInit =>
      simp only [hphase, LifePhase.after] at hm
      dsimp only
      split
      · refine ⟨0, fun hp => (by cases hp), ?_⟩
        simp only [LifePhase.after]
        omega
      · refine ⟨_, fun _ => within_askImei, ?_⟩
        simp only [LifePhase.after]
        omega
  | getImei =>
      simp only [hphase, LifePhase.after] at hm
      refine ⟨_, fun _ => within_connect, ?_⟩
      simp only [LifePhase.after]
      omega
  | socketConnect =>
      simp only [hphase, LifePhase.after] at hm
      refine ⟨0, fun hp => ?_, ?_⟩
      · dsimp only at hp
        split at hp <;> cases hp
      · dsimp only
        split <;> simp only [LifePhase.after] <;> omega
  | socketDeInit => exact ⟨0, fun hp => (by cases hp), Nat.zero_le _⟩
  | _ => exact absurd hat (by simp [hphase, LifePhase.atModem])

theorem left_libraryDone {s t : LifeCycle} {m : ℕ} {ok : Bool} (h : Left cost s m)
    (hdone : libraryDone s ok = some t) : Left cost t m := by
  obtain ⟨n, -, hm⟩ := h
  unfold libraryDone at hdone
  cases hphase : s.phase with
  | disconnect =>
      rw [hphase] at hdone hm
      cases hdone
      exact ⟨_, fun _ => within_close _, (Nat.le_add_left _ n).trans hm⟩
  | publish =>
      rw [hphase] at hdone hm
      cases hdone
      exact ⟨0, fun hp => (by cases hp), (Nat.zero_add _).le.trans ((Nat.le_add_left _ n).trans hm)⟩
  | lwtConnect =>
      rw [hphase] at hdone hm
      cases hdone
      refine ⟨0, fun hp => ?_, ?_⟩
      · cases ok <;> cases hp
      · cases ok <;> exact (Nat.zero_add _).le.trans ((Nat.le_add_left _ n).trans hm)
  | subscribes =>
      rw [hphase] at hdone hm
      cases hdone
      refine ⟨0, fun hp => ?_, ?_⟩
      · cases ok <;> cases hp
      · cases ok <;> exact (Nat.zero_add _).le.trans ((Nat.le_add_left _ n).trans hm)
  | _ =>
      rw [hphase] at hdone
      cases hdone

variable {host : Option (List UInt8)} {port : ℤ}

/-- **A step spends what is left**, and an attempt that begins brings its budget. -/
theorem left_step (s : LifeCycle) (a : LifeAct) (t : LifeCycle) (m : ℕ) (h : Left cost s m)
    (hstep : lifeStep host port s a = some t) :
    ∃ n, Left cost t n ∧ modemCost cost s a + n ≤ m + attemptCredit cost s a := by
  obtain ⟨n, hprog, hm⟩ := h
  cases a with
  | clientInit ok =>
      simp only [lifeStep] at hstep
      split at hstep
      · cases hstep
        cases ok with
        | true =>
            refine ⟨attemptCost cost, ⟨_, fun _ => ?_, le_rfl⟩, ?_⟩
            · exact (within_socketInit host port).mono le_rfl fun _ _ => trivial
            · rw [attemptCredit, if_pos rfl]
              exact (Nat.zero_add _).le.trans (Nat.le_add_left _ m)
        | false => exact ⟨m, ⟨n, hprog, hm⟩, (Nat.zero_add m).le.trans (Nat.le_add_right m _)⟩
      · cases hstep
  | next =>
      refine ⟨m, ?_, (Nat.zero_add m).le.trans (Nat.le_add_right m _)⟩
      simp only [lifeStep] at hstep
      split at hstep
      · rename_i hat
        have hwithin := hprog hat
        cases hp : s.prog with
        | pure rc =>
            rw [hp] at hstep
            cases hstep
            exact left_returned ⟨n, hprog, hm⟩ hat rc
        | flush k =>
            rw [hp] at hstep hwithin
            cases hstep
            exact ⟨n, fun _ => hwithin, hm⟩
        | send buf k =>
            rw [hp] at hstep hwithin
            cases hstep
            exact ⟨n, fun _ => hwithin _, hm⟩
        | recv maxLen timeout k =>
            rw [hp] at hstep
            cases hstep
        | setTransparentMode b k =>
            rw [hp] at hstep hwithin
            cases hstep
            exact ⟨n, fun _ => hwithin, hm⟩
      · cases hstep
  | recv got =>
      simp only [lifeStep] at hstep
      split at hstep
      · rename_i hat
        have hwithin := hprog hat
        cases hp : s.prog with
        | recv maxLen timeout k =>
            rw [hp] at hstep hwithin
            dsimp only at hstep
            split at hstep
            · cases hstep
              obtain ⟨hle, hrest⟩ := hwithin
              refine ⟨m - cost maxLen timeout, ⟨_, fun _ => hrest _ _, ?_⟩, ?_⟩
              · dsimp only
                omega
              · rw [modemCost, hp]
                dsimp only
                omega
            · cases hstep
        | _ =>
            rw [hp] at hstep
            cases hstep
      · cases hstep
  | write payload =>
      simp only [lifeStep] at hstep
      split at hstep
      · rename_i hlib
        cases hstep
        refine ⟨m, ⟨n, fun hat => ?_, hm⟩, (Nat.zero_add m).le.trans (Nat.le_add_right m _)⟩
        exact hprog hat
      · cases hstep
  | done ok =>
      exact ⟨m, left_libraryDone ⟨n, hprog, hm⟩ hstep,
        (Nat.zero_add m).le.trans (Nat.le_add_right m _)⟩

theorem total_credit {s u : LifeCycle} {as : List LifeAct}
    (hrun : run (lifeStep host port) s as = some u) :
    total (lifeStep host port) (attemptCredit cost) s as =
      attemptCost cost * as.count (.clientInit true) := by
  induction as generalizing s with
  | nil => rfl
  | cons a as ih =>
      rw [run_cons, Option.bind_eq_some_iff] at hrun
      obtain ⟨t, hta, ht⟩ := hrun
      simp only [total, hta, Option.elim_some, ih ht, List.count_cons, attemptCredit, beq_iff_eq]
      split
      · rw [Nat.mul_add, Nat.mul_one, Nat.add_comm]
      · rw [Nat.zero_add, Nat.add_zero]

/-- **What the modem costs** in a run: no more than the budget of each attempt. -/
theorem modem_budget {u : LifeCycle} {as : List LifeAct}
    (hrun : run (lifeStep host port) {} as = some u) :
    total (lifeStep host port) (modemCost cost) {} as ≤
      attemptCost cost * as.count (.clientInit true) := by
  have hstart : Left cost {} 0 := ⟨0, fun hat => (by cases hat), le_rfl⟩
  obtain ⟨n, -, hle⟩ := total_le_of_budget left_step hstart hrun
  rw [total_credit hrun] at hle
  omega

end

/-- **Attempts are bounded.** In every run of `run_app`, however often it has tried to
connect and wherever each attempt failed, the functions that open and close the
connection have waited for the modem at most 221 times for each attempt begun, and
for no longer than an hour and 105 seconds in each. As above, a write of `pars_op` out
of bounds is taken to do no harm. -/
theorem attempts_bounded {host : Option (List UInt8)} {port : ℤ} {u : LifeCycle}
    {as : List LifeAct} (hrun : run (lifeStep host port) {} as = some u) :
    total (lifeStep host port) (modemCost fun _ _ => 1) {} as ≤
        221 * as.count (.clientInit true) ∧
      total (lifeStep host port) (modemCost fun _ timeout => timeout.toNat) {} as ≤
        3705000 * as.count (.clientInit true) :=
  ⟨modem_budget hrun, modem_budget hrun⟩

/-- An attempt on a modem that is switched off, and one that fails before it. -/
def silentRun : List LifeAct :=
  [.clientInit false, .clientInit true, .next, .next, .recv [], .next, .done false, .next, .next,
    .recv [], .next, .clientInit true]

theorem silentRun_bounded : ∃ u, run (lifeStep none 1883) {} silentRun = some u ∧
    total (lifeStep none 1883) (modemCost fun _ _ => 1) {} silentRun ≤
        221 * silentRun.count (.clientInit true) ∧
      total (lifeStep none 1883) (modemCost fun _ timeout => timeout.toNat) {} silentRun ≤
        3705000 * silentRun.count (.clientInit true) := by
  have hrun : (run (lifeStep none 1883) {} silentRun).isSome = true := by decide +kernel
  obtain ⟨u, hu⟩ := Option.isSome_iff_exists.mp hrun
  exact ⟨u, hu, attempts_bounded hu⟩

end SmartDoorLock
