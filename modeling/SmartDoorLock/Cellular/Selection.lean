import Mathlib.Algebra.GroupWithZero.Nat
import Mathlib.Data.List.Induction
import SmartDoorLock.Cellular.OperatorText

/-!
# The operators are tried in turn

`SocketInit` selects the operators of the list one after the other, by the code that
was read from the list and is written again into the command. A code is written as it
was read unless it begins with a zero, which `%d` drops; the next operator is tried
only when no poll has shown a registration. The other stages say nothing about
operators, so the search is all that `SocketInit` says about them after the list.
-/

namespace SmartDoorLock

open CText

/-! ## A number read and written again -/

/-- A number of two digits or more begins with a zero. -/
def LeadingZero (s : List UInt8) : Prop := s.head? = some 48 ∧ s ≠ [48]

/-- The characters of a number. -/
theorem decimal_natCast (n : ℕ) :
    decimal n = (Nat.toDigits 10 n).map fun c => UInt8.ofNat c.toNat := by
  show ascii n.repr = _
  rw [ascii, Nat.toList_repr]

theorem decimal_add {n d : ℕ} (hn : 0 < n) (hd : d < 10) :
    decimal (10 * n + d : ℕ) = decimal n ++ decimal d := by
  rw [decimal_natCast, decimal_natCast, decimal_natCast,
    ← Nat.toDigits_append_toDigits (by decide) hn hd, List.map_append]

theorem digit_bounds {d : UInt8} (h : digit d = true) : 48 ≤ d.toNat ∧ d.toNat ≤ 57 := by
  simp only [digit, Bool.and_eq_true, decide_eq_true_eq] at h
  exact h

theorem decimal_digit {d : UInt8} (h : digit d = true) : decimal (d.toNat - 48 : ℕ) = [d] := by
  obtain ⟨hlow, hhigh⟩ := digit_bounds h
  have hlt : d.toNat - 48 < 10 := by omega
  have hchar : 48 + (d.toNat - 48) = d.toNat := by omega
  rw [decimal_natCast, Nat.toDigits_of_lt_base hlt, List.map_singleton,
    Nat.toNat_digitChar_of_lt_ten hlt, hchar, UInt8.ofNat_toNat]

theorem digits_concat {s : List UInt8} {d : UInt8} (hs : ∀ b ∈ s, digit b = true)
    (hd : digit d = true) : digits (s ++ [d]) = 10 * digits s + (d.toNat - 48) := by
  have hall : ∀ b ∈ s ++ [d], digit b = true := by
    intro b hb
    rcases List.mem_append.mp hb with hb | hb
    · exact hs b hb
    · rw [List.mem_singleton.mp hb]
      exact hd
  rw [digits, digits, List.takeWhile_eq_self_iff.mpr hall, List.takeWhile_eq_self_iff.mpr hs,
    List.foldl_append]
  rfl

theorem digits_lt {s : List UInt8} (hs : ∀ b ∈ s, digit b = true) : digits s < 10 ^ s.length := by
  induction s using List.reverseRecOn with
  | nil => exact Nat.one_pos
  | append_singleton s d ih =>
      have hd := hs d (List.mem_append_right _ (List.mem_singleton_self d))
      have hfront : ∀ b ∈ s, digit b = true := fun b hb => hs b (List.mem_append_left _ hb)
      have hlt := ih hfront
      have hbounds := digit_bounds hd
      rw [digits_concat hfront hd, List.length_append, List.length_singleton, Nat.pow_succ]
      omega

/-- A number that begins with another digit is written as it was read. -/
theorem decimal_digits {s : List UInt8} (hs : ∀ b ∈ s, digit b = true) (hne : s ≠ [])
    (hhead : s.head? ≠ some 48) : decimal (digits s) = s ∧ 0 < digits s := by
  induction s using List.reverseRecOn with
  | nil => exact absurd rfl hne
  | append_singleton s d ih =>
      have hd := hs d (List.mem_append_right _ (List.mem_singleton_self d))
      have hfront : ∀ b ∈ s, digit b = true := fun b hb => hs b (List.mem_append_left _ hb)
      obtain ⟨hlow, hhigh⟩ := digit_bounds hd
      rw [digits_concat hfront hd]
      by_cases hempty : s = []
      · subst hempty
        have hd48 : d.toNat ≠ 48 := by
          intro heq
          exact hhead (congrArg some (UInt8.toNat_inj.mp heq))
        refine ⟨?_, by omega⟩
        rw [show 10 * digits [] + (d.toNat - 48) = d.toNat - 48 from Nat.zero_add _]
        exact decimal_digit hd
      · obtain ⟨b, rest, rfl⟩ := List.exists_cons_of_ne_nil hempty
        obtain ⟨htext, hpos⟩ := ih hfront hempty hhead
        refine ⟨?_, by omega⟩
        rw [decimal_add hpos (by omega), htext, decimal_digit hd]

/-- **Read and written again.** A number comes out as it went in, unless it begins
with a zero that is not all of it. -/
theorem decimal_digits_iff {s : List UInt8} (hs : ∀ b ∈ s, digit b = true) (hne : s ≠ []) :
    decimal (digits s) = s ↔ ¬ LeadingZero s := by
  constructor
  · rintro htext ⟨hhead, hmore⟩
    obtain ⟨rest, rfl⟩ : ∃ rest, s = 48 :: rest := by
      cases s with
      | nil => cases hhead
      | cons b rest =>
          obtain rfl := Option.some.inj hhead
          exact ⟨rest, rfl⟩
    have hrest : rest ≠ [] := fun hnil => hmore (by rw [hnil])
    have hdigits : ∀ b ∈ rest, digit b = true := fun b hb => hs b (List.mem_cons_of_mem _ hb)
    -- the zero adds nothing, and what is left has fewer digits
    have hsame : digits (48 :: rest) = digits rest := rfl
    have hshort : (decimal (digits rest)).length ≤ rest.length := by
      rw [decimal_natCast, List.length_map]
      exact (Nat.length_toDigits_le_iff (by decide) (List.length_pos_iff.mpr hrest)).mpr
        (digits_lt hdigits)
    rw [← hsame, htext, List.length_cons] at hshort
    omega
  · intro hlead
    by_cases hhead : s.head? = some 48
    · have hzero : s = [48] := by
        by_contra hmore
        exact hlead ⟨hhead, hmore⟩
      rw [hzero]
      decide
    · exact (decimal_digits hs hne hhead).1

/-! ## The search -/

/-- The commands of a log that are no polls. -/
def selections (log : List (List UInt8 × List UInt8)) : List (List UInt8) :=
  (log.map Prod.fst).filter (· ≠ CREG)

theorem selections_append (front back : List (List UInt8 × List UInt8)) :
    selections (front ++ back) = selections front ++ selections back := by
  rw [selections, List.map_append, List.filter_append]
  rfl

theorem selections_polls {polls : List (List UInt8 × List UInt8)} (h : ∀ e ∈ polls, e.1 = CREG) :
    selections polls = [] := by
  rw [selections, List.filter_eq_nil_iff]
  intro cmd hcmd
  obtain ⟨e, he, rfl⟩ := List.mem_map.mp hcmd
  simp [h e he]

theorem selections_select (op : OperatorInfo) (got : List UInt8)
    (log : List (List UInt8 × List UInt8)) :
    selections ((selectCommand op, got) :: log) = selectCommand op :: selections log := by
  rw [selections, List.map_cons, List.filter_cons_of_pos]
  · rfl
  · simpa using selectCommand_ne op

/-- What a search has said: it has tried the first operators, each with one selection;
no poll before the last ones shows a registration, and some are left only if the last
poll of all shows one. -/
def TriedInTurn (ops : List OperatorInfo) (log : List (List UInt8 × List UInt8)) : Prop :=
  ∃ tried rest front polls, ops = tried ++ rest ∧ log = front ++ polls ∧
    selections log = tried.map selectCommand ∧ NoneRegistered front ∧
    (∀ e ∈ polls, e.1 = CREG) ∧
    (rest ≠ [] → ∃ last, polls.getLast? = some last ∧ registered last.2 = true)

/-- A pass without a registration comes before the others. -/
theorem TriedInTurn.cons {op : OperatorInfo} {ops : List OperatorInfo} {got : List UInt8}
    {polls log : List (List UInt8 × List UInt8)} (h : TriedInTurn ops log)
    (hpolls : ∀ e ∈ polls, e.1 = CREG) (hnone : ∀ e ∈ polls, registered e.2 = false) :
    TriedInTurn (op :: ops) ((selectCommand op, got) :: polls ++ log) := by
  obtain ⟨tried, rest, front, last, rfl, rfl, hselect, hfront, hlast, hfound⟩ := h
  refine ⟨op :: tried, rest, (selectCommand op, got) :: polls ++ front, last, rfl, ?_, ?_, ?_,
    hlast, hfound⟩
  · rw [List.append_assoc]
  · rw [List.cons_append, selections_select, selections_append, selections_polls hpolls,
      List.nil_append, hselect]
    rfl
  · refine NoneRegistered.append ?_ hfront
    intro e he hcreg
    rcases List.mem_cons.mp he with rfl | he
    · exact absurd hcreg (selectCommand_ne op)
    · exact hnone e he

/-- **The search** tries the operators in turn. -/
theorem operatorSearch_tried (reply : ℕ → List UInt8) (ops : List OperatorInfo) (h : Heard) :
    ∃ log, ((operatorSearch ops).hear reply h).2.log = h.log ++ log ∧ TriedInTurn ops log := by
  induction ops generalizing h with
  | nil =>
      refine ⟨[], (List.append_nil _).symm, [], [], [], [], rfl, rfl, rfl, ?_, ?_, ?_⟩
      · intro e he
        exact absurd he List.not_mem_nil
      · intro e he
        exact absurd he List.not_mem_nil
      · intro hrest
        exact absurd rfl hrest
  | cons op ops ih =>
      have hlen : (h.add (selectCommand op) (h.next reply 10)).log.length = h.log.length + 1 := by
        simp
      rw [hear_operatorSearch_cons]
      cases hok : okAt reply h.log.length 10 with
      | false =>
          obtain ⟨log, hlog, htried⟩ := ih (h.add (selectCommand op) (h.next reply 10))
          refine ⟨(selectCommand op, h.next reply 10) :: [] ++ log, ?_, ?_⟩
          · simp only [if_neg Bool.false_ne_true]
            rw [hlog, Heard.add_log, List.append_assoc, List.cons_append, List.nil_append]
          · exact htried.cons (fun e he => absurd he List.not_mem_nil) fun e he =>
              absurd he List.not_mem_nil
      | true =>
          obtain ⟨polls, hlog, hall, -, hres⟩ :=
            hear_registeredRounds reply ROUNDS 0 (h.add (selectCommand op) (h.next reply 10))
          rw [hlen] at hres
          simp only [if_true]
          rw [cellularWaitUntilRegistered]
          split at hres
          · obtain ⟨hrc, hshown⟩ := hres
            rw [if_pos hrc]
            refine ⟨(selectCommand op, h.next reply 10) :: polls, ?_, ?_⟩
            · rw [hlog, Heard.add_log, List.append_assoc]
              rfl
            · refine ⟨[op], ops, [(selectCommand op, h.next reply 10)], polls, rfl, rfl, ?_, ?_,
                hall, fun _ => hshown⟩
              · rw [selections_select, selections_polls hall]
                rfl
              · apply noneRegistered_of_ne
                simpa using selectCommand_ne op
          · obtain ⟨hrc, hnone⟩ := hres
            have hne : ¬ (((registeredRounds ROUNDS 0).hear reply
                (h.add (selectCommand op) (h.next reply 10))).1 = 0) := by
              rw [hrc]
              decide
            obtain ⟨log, hrest, htried⟩ := ih ((registeredRounds ROUNDS 0).hear reply
              (h.add (selectCommand op) (h.next reply 10))).2
            rw [if_neg hne]
            refine ⟨(selectCommand op, h.next reply 10) :: polls ++ log, ?_,
              htried.cons hall hnone⟩
            rw [hrest, hlog, Heard.add_log, List.append_assoc, List.append_assoc]
            rfl

/-- A search asks for nothing but selections and polls. -/
theorem TriedInTurn.ne_cops {ops : List OperatorInfo} {log : List (List UInt8 × List UInt8)}
    (h : TriedInTurn ops log) {e : List UInt8 × List UInt8} (he : e ∈ log) : e.1 ≠ COPS := by
  obtain ⟨tried, -, -, -, -, -, hselect, -⟩ := h
  intro hcops
  have hmem : e.1 ∈ selections log := by
    refine List.mem_filter.mpr ⟨List.mem_map_of_mem he, ?_⟩
    rw [hcops]
    decide
  rw [hselect, List.mem_map] at hmem
  obtain ⟨op, -, hop⟩ := hmem
  have hbyte : (selectCommand op).getD 8 0 = 49 := rfl
  rw [hop, hcops] at hbyte
  exact absurd hbyte (by decide)

/-! ## What a program asks -/

namespace Serial

variable {α β : Type} {Q : List UInt8 → Prop} {asked : List UInt8}

/-- Started after the command `asked`, the program receives only after commands in
`Q`. -/
def AsksIn (Q : List UInt8 → Prop) : List UInt8 → Serial α → Prop
  | _, .pure _ => True
  | asked, .flush k => k.AsksIn Q asked
  | _, .send buf k => ∀ rc, (k rc).AsksIn Q buf
  | asked, .recv _ _ k => Q asked ∧ ∀ buf rc, (k buf rc).AsksIn Q asked
  | asked, .setTransparentMode _ k => k.AsksIn Q asked

/-- **Sequencing.** -/
theorem AsksIn.bind {p : Serial α} {f : α → Serial β} (hp : p.AsksIn Q asked)
    (hf : ∀ a asked, (f a).AsksIn Q asked) : (p >>= f).AsksIn Q asked := by
  show (p.bind f).AsksIn Q asked
  induction p generalizing asked with
  | pure a => exact hf a asked
  | flush k ih => exact ih hp
  | send buf k ih => exact fun rc => ih rc (hp rc)
  | recv maxLen timeout k ih => exact ⟨hp.1, fun buf rc => ih buf rc (hp.2 buf rc)⟩
  | setTransparentMode b k ih => exact ih hp

/-- **What is said** by the program are commands in `Q`. -/
theorem AsksIn.hear {p : Serial α} {h : Heard} (hp : p.AsksIn Q h.asked)
    (reply : ℕ → List UInt8) :
    ∃ l, (p.hear reply h).2.log = h.log ++ l ∧ ∀ e ∈ l, Q e.1 := by
  induction p generalizing h with
  | pure a => exact ⟨[], (List.append_nil _).symm, fun e he => absurd he List.not_mem_nil⟩
  | flush k ih => exact ih hp
  | send buf k ih => exact ih buf.length (h := { h with asked := buf }) (hp _)
  | recv maxLen timeout k ih =>
      obtain ⟨l, hlog, hl⟩ := ih ((reply h.log.length).take maxLen)
        ((reply h.log.length).take maxLen).length
        (h := { h with log := h.log ++ [(h.asked, (reply h.log.length).take maxLen)] }) (hp.2 _ _)
      refine ⟨(h.asked, (reply h.log.length).take maxLen) :: l, ?_, ?_⟩
      · rw [Serial.hear, hlog, List.append_assoc]
        rfl
      · intro e he
        rcases List.mem_cons.mp he with rfl | he
        · exact hp.1
        · exact hl e he
  | setTransparentMode b k ih => exact ih hp

theorem asksIn_ite {c : Prop} [Decidable c] {p q : Serial α} (hp : p.AsksIn Q asked)
    (hq : q.AsksIn Q asked) : (if c then p else q).AsksIn Q asked := by
  split
  · exact hp
  · exact hq

theorem asksIn_return (a : α) : (Pure.pure a : Serial α).AsksIn Q asked := trivial

end Serial

open Serial

section

variable {β : Type} {Q : List UInt8 → Prop} {asked cmd : List UInt8} {maxLen : ℕ}
  {timeout : UInt32}

/-- An exchange and what is done with the reply. -/
theorem asksIn_asked {p : Serial β} {f : List UInt8 → Serial β} (hcmd : Q cmd)
    (hp : ∀ asked, p.AsksIn Q asked) (hf : ∀ buf asked, (f buf).AsksIn Q asked) :
    (do
      match ← exchange cmd maxLen timeout with
      | none => p
      | some buf => f buf : Serial β).AsksIn Q asked := by
  have hexchange : (exchange cmd maxLen timeout).AsksIn Q asked := by
    intro sent
    refine asksIn_ite trivial ⟨hcmd, fun buf rc => ?_⟩
    exact asksIn_ite trivial trivial
  refine hexchange.bind fun got asked => ?_
  cases got with
  | none => exact hp asked
  | some buf => exact hf buf asked

/-- A command that is to be answered by an OK. -/
theorem asksIn_okCommand (hcmd : Q cmd) :
    (do
      match ← exchange cmd maxLen timeout with
      | none => return -1
      | some buf => if answers buf OK then return 0 else return -1 : Serial ℤ).AsksIn Q asked :=
  asksIn_asked hcmd (fun _ => asksIn_return _) fun _ _ =>
    asksIn_ite (asksIn_return _) (asksIn_return _)

/-- A stage whose failure ends the function. -/
theorem asksIn_guarded {p q : Serial ℤ} (hp : p.AsksIn Q asked) (hq : ∀ asked, q.AsksIn Q asked) :
    (do
      if (← p) = -1 then return -1
      q : Serial ℤ).AsksIn Q asked :=
  hp.bind fun _ asked => asksIn_ite (asksIn_return _) (hq asked)

end

/-- The command asks for the operators, or selects one. -/
def AboutOperators (cmd : List UInt8) : Prop := ascii "AT+COPS" <+: cmd

/-- Another command is not about operators. -/
def Elsewhere (cmd : List UInt8) : Prop := ¬ AboutOperators cmd

theorem elsewhere_of_ne {cmd : List UInt8} (h : cmd.take 7 ≠ ascii "AT+COPS") : Elsewhere cmd :=
  fun hprefix => h (List.prefix_iff_eq_take.mp hprefix).symm

/-- The commands of the profiles have another third byte. -/
theorem elsewhere_of_third {cmd : List UInt8} (h : cmd.getD 2 0 = 94) : Elsewhere cmd := by
  rintro ⟨rest, rfl⟩
  have hthird : (ascii "AT+COPS" ++ rest).getD 2 0 = 43 := rfl
  rw [hthird] at h
  exact absurd h (by decide)

theorem elsewhere_cellularInit (asked : List UInt8) : cellularInit.AsksIn Elsewhere asked :=
  asksIn_guarded (asksIn_okCommand (elsewhere_of_ne (by decide))) fun _ =>
    asksIn_okCommand (elsewhere_of_ne (by decide))

theorem elsewhere_modemRounds (rounds : ℕ) (asked : List UInt8) :
    (modemRounds rounds).AsksIn Elsewhere asked := by
  induction rounds generalizing asked with
  | zero => trivial
  | succ rounds ih =>
      refine AsksIn.bind (asksIn_okCommand (elsewhere_of_ne (by decide))) fun _ asked => ?_
      exact asksIn_ite (asksIn_return _) (ih asked)

theorem elsewhere_connectionProfile (inact : ℤ) (asked : List UInt8) :
    (cellularSetupInternetConnectionProfile inact).AsksIn Elsewhere asked := by
  refine asksIn_ite (asksIn_return _) ?_
  refine asksIn_asked (elsewhere_of_third rfl) (fun _ => asksIn_return _) fun _ asked => ?_
  refine asksIn_ite (asksIn_return _) ?_
  refine asksIn_asked (elsewhere_of_third rfl) (fun _ => asksIn_return _) fun _ asked => ?_
  refine asksIn_ite (asksIn_return _) ?_
  intro sent
  exact asksIn_ite trivial ⟨elsewhere_of_third rfl, fun buf rc => trivial⟩

theorem elsewhere_serviceProfile (ip : Option (List UInt8)) (port keep : ℤ) (asked : List UInt8) :
    (cellularSetupInternetServiceProfile ip port keep).AsksIn Elsewhere asked := by
  cases ip with
  | none => trivial
  | some ip =>
      refine asksIn_ite (asksIn_return _) ?_
      refine asksIn_asked (elsewhere_of_third rfl) (fun _ => asksIn_return _) fun _ asked => ?_
      refine asksIn_ite (asksIn_return _) ?_
      refine asksIn_asked (elsewhere_of_third rfl) (fun _ => asksIn_return _) fun _ asked => ?_
      exact asksIn_ite (asksIn_return _) (asksIn_okCommand (elsewhere_of_third rfl))

/-! ## `SocketInit` -/

/-- What `SocketInit` has said of operators: nothing; or it has asked for the list
once, and searched what was listed unless the list was rejected. -/
inductive SaidOfOperators (log : List (List UInt8 × List UInt8)) : Prop where
  | nothing (helsewhere : ∀ e ∈ log, Elsewhere e.1)
  | rejected (front : List (List UInt8 × List UInt8)) (got : List UInt8)
      (hfront : ∀ e ∈ front, Elsewhere e.1) (hlog : log = front ++ [(COPS, got)])
      (hrc : (parsOperators got 25 noOperators).rc = -1)
  | searched (front tries back : List (List UInt8 × List UInt8)) (got : List UInt8)
      (hfront : ∀ e ∈ front, Elsewhere e.1) (hback : ∀ e ∈ back, Elsewhere e.1)
      (hlog : log = front ++ (COPS, got) :: (tries ++ back))
      (htried : TriedInTurn (listedIn got) tries)

/-- The profiles say nothing of operators. -/
theorem elsewhere_profiles (host : Option (List UInt8)) (port : ℤ) (asked : List UInt8) :
    (do
      if (← cellularSetupInternetConnectionProfile 20) = -1 then return -1
      if (← cellularSetupInternetServiceProfile host port 80) = -1 then return -1
      return 0 : Serial ℤ).AsksIn Elsewhere asked :=
  asksIn_guarded (elsewhere_connectionProfile 20 asked) fun asked =>
    asksIn_guarded (elsewhere_serviceProfile host port 80 asked) fun _ => asksIn_return _

theorem saidOfOperators (reply : ℕ → List UInt8) (host : Option (List UInt8)) (port : ℤ) :
    SaidOfOperators ((socketInit host port).hear reply {}).2.log := by
  obtain ⟨l₀, hlog₀, hall₀⟩ := (elsewhere_cellularInit []).hear (h := {}) reply
  rw [socketInit, hear_guarded]
  generalize cellularInit.hear reply {} = r₀ at hlog₀ ⊢
  have hall₀ : ∀ e ∈ r₀.2.log, Elsewhere e.1 := by
    rw [hlog₀]
    exact hall₀
  by_cases hrc₀ : r₀.1 = -1
  · rw [if_pos hrc₀]
    exact .nothing hall₀
  · obtain ⟨l₁, hlog₁, hall₁⟩ := (elsewhere_modemRounds ROUNDS r₀.2.asked).hear (h := r₀.2) reply
    rw [if_neg hrc₀, hear_guarded, cellularWaitUntilModemResponds]
    generalize (modemRounds ROUNDS).hear reply r₀.2 = r₁ at hlog₁ ⊢
    have hall₁ : ∀ e ∈ r₁.2.log, Elsewhere e.1 := by
      intro e he
      rw [hlog₁, List.mem_append] at he
      exact he.elim (hall₀ e) (hall₁ e)
    by_cases hrc₁ : r₁.1 = -1
    · rw [if_pos hrc₁]
      exact .nothing hall₁
    · rw [if_neg hrc₁, hear_bind, hear_getOperators]
      generalize r₁.2.next reply 1023 = got
      dsimp only
      by_cases hrc : (parsOperators got 25 noOperators).rc = -1
      · rw [if_pos hrc]
        exact .rejected r₁.2.log got hall₁ rfl hrc
      · rw [if_neg hrc, hear_bind]
        obtain ⟨tries, hlog₂, htried⟩ :=
          operatorSearch_tried reply (listedIn got) (r₁.2.add COPS got)
        rw [show (parsOperators got 25 noOperators).listed = listedIn got from rfl]
        generalize (operatorSearch (listedIn got)).hear reply (r₁.2.add COPS got) = r₂ at hlog₂ ⊢
        obtain ⟨back, hlog₃, hback⟩ :=
          (elsewhere_profiles host port r₂.2.asked).hear (h := r₂.2) reply
        refine .searched r₁.2.log tries back got hall₁ hback ?_ htried
        rw [hlog₃, hlog₂, Heard.add_log, List.append_assoc, List.append_assoc]
        rfl

/-- A list as the modem writes it is read to its first 25 operators. -/
theorem listedIn_written {ops : List ListedOperator} {pre tail : List UInt8} (hspace : 32 ∉ pre)
    (htail : 0 ∉ tail) (hparen : 41 ∉ tail)
    (hlen : (pre ++ 32 :: (listed ops ++ tail)).length ≤ 1022) :
    (parsOperators (pre ++ 32 :: (listed ops ++ tail)) 25 noOperators).rc = 0 ∧
      listedIn (pre ++ 32 :: (listed ops ++ tail)) = (ops.take 25).map (·.record) := by
  have hread := @parsOperators_listed ops pre tail 25 25 hspace htail hparen hlen le_rfl
  rw [listedIn, show noOperators = blank 25 from rfl, hread]
  refine ⟨rfl, ?_⟩
  have hcount : ((ops.take 25).map fun op => op.record).length = min ops.length 25 := by
    rw [List.length_map, List.length_take, Nat.min_comm]
  show (((ops.take 25).map fun op => op.record) ++ blank _).take (min ops.length 25) = _
  rw [List.take_append_of_le_length hcount.ge, ← hcount, List.take_length]

/-- **The listed operators are tried in turn.** When `SocketInit` receives a list of
operators as the modem writes it, it then selects the first 25 of them in the order
listed, each once, going on to the next one only when no poll has shown a
registration, and selects nothing before or afterwards. The selection names an
operator by the code that stands in the list, if and only if that does not begin with
a zero that is not all of it. -/
theorem operators_tried (host : Option (List UInt8)) (port : ℤ) (reply : ℕ → List UInt8)
    (ops : List ListedOperator) (pre tail : List UInt8) (hspace : 32 ∉ pre) (htail : 0 ∉ tail)
    (hparen : 41 ∉ tail) (hlen : (pre ++ 32 :: (listed ops ++ tail)).length ≤ 1022)
    (hlist : (COPS, pre ++ 32 :: (listed ops ++ tail)) ∈
      ((socketInit host port).hear reply {}).2.log) :
    (∃ front tries back, ((socketInit host port).hear reply {}).2.log =
        front ++ (COPS, pre ++ 32 :: (listed ops ++ tail)) :: (tries ++ back) ∧
        TriedInTurn ((ops.take 25).map fun op => op.record) tries ∧
        (∀ e ∈ front, ¬ AboutOperators e.1) ∧ ∀ e ∈ back, ¬ AboutOperators e.1) ∧
      ∀ op ∈ ops, selectCommand op.record = ascii "AT+COPS=1,2,\"" ++ op.code ++ ascii "\"\r\n" ↔
        ¬ LeadingZero op.code := by
  obtain ⟨hrc, hread⟩ := listedIn_written hspace htail hparen hlen
  generalize pre ++ 32 :: (listed ops ++ tail) = got at hlist hrc hread ⊢
  constructor
  · have hcops : AboutOperators COPS := by
      unfold AboutOperators
      decide
    cases saidOfOperators reply host port with
    | nothing helsewhere => exact absurd hcops (helsewhere _ hlist)
    | rejected front got' hfront hlog hrejected =>
        rw [hlog, List.mem_append, List.mem_singleton] at hlist
        rcases hlist with hlist | hlist
        · exact absurd hcops (hfront _ hlist)
        · cases hlist
          rw [hrc] at hrejected
          exact absurd hrejected zero_ne_error
    | searched front tries back got' hfront hback hlog htried =>
        rw [hlog, List.mem_append, List.mem_cons, List.mem_append] at hlist
        rcases hlist with hlist | hlist | hlist | hlist
        · exact absurd hcops (hfront _ hlist)
        · cases hlist
          rw [hread] at htried
          exact ⟨front, tries, back, hlog, htried, hfront, hback⟩
        · exact absurd rfl (htried.ne_cops hlist)
        · exact absurd hcops (hback _ hlist)
  · intro op _
    rw [← decimal_digits_iff op.code_digit op.code_ne, selectCommand, ListedOperator.record]
    dsimp only
    rw [List.append_cancel_right_eq, List.append_cancel_left_eq]

/-- The first of two listed operators is accepted and never shows a registration. -/
def secondReply (n : ℕ) : List UInt8 :=
  if n = 3 then twoListed
  else if n = 13 then ascii "\r\n+CREG: 0,1\r\n\r\nOK\r\n"
  else ascii "\r\nOK\r\n"

theorem secondReply_listed : (COPS, twoListed) ∈
    ((socketInit (some (ascii "35.169.0.97")) 1883).hear secondReply {}).2.log := by
  decide +kernel

theorem secondReply_tried : ∃ front tries back,
    ((socketInit (some (ascii "35.169.0.97")) 1883).hear secondReply {}).2.log =
        front ++ (COPS, twoListed) :: (tries ++ back) ∧
      TriedInTurn [partner.record, unnamed.record] tries := by
  obtain ⟨⟨front, tries, back, hlog, htried, -⟩, -⟩ :=
    operators_tried (some (ascii "35.169.0.97")) 1883 secondReply [partner, unnamed]
      (ascii "\r\n+COPS:") (ascii ",,\r\n\r\nOK\r\n") (by decide) (by decide) (by decide)
      (by decide) secondReply_listed
  exact ⟨front, tries, back, hlog, htried⟩

end SmartDoorLock
