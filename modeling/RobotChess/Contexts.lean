-- The Modbus contexts of the PC program. `plc` is a global handle that each
-- attempt of `robot_connect` overwrites. A failed attempt keeps its context, so
-- each retry of the loop in main.c leaves one more context behind.
import RobotChess.Handles
import RobotChess.Cell

open runs handles

namespace robotchess

/-! ## The library -/

/-- The length of a C string: its bytes up to the first 0. -/
def strlen (s : List UInt8) : Nat := (s.takeWhile fun b => b != 0).length

/-- `modbus_new_tcp`, modbus-tcp.c. The 16 bytes of the address field are the bound, and a
context that is refused is freed again. -/
def modbus_new_tcp (ip : List UInt8) (contexts : Pool) : Option Nat × Pool :=
  let (ctx, contexts) := contexts.alloc
  if strlen ip = 0 then (none, contexts.free ctx)
  else if 16 ≤ strlen ip then (none, contexts.free ctx)
  else (some ctx, contexts)

/-- `modbus_free`, modbus.c. -/
def modbus_free (ctx : Option Nat) (contexts : Pool) : Pool :=
  match ctx with
  | none => contexts
  | some h => contexts.free h

/-! ## The program -/

/-- The driver, its global `plc`, the live contexts, and whether the loop of main.c is past
`robot_connect`. -/
structure Main where
  driver : Driver
  plc : Option Nat
  contexts : Pool
  connected : Bool

def Main.start : Main := ⟨.idle, none, .empty, false⟩

inductive MainInput
  -- `robot_connect(ip, port)`, from the loop
  | connect (ip : List UInt8)
  -- another driver function
  | call (c : Call)
  -- the next operation of the driver function
  | op (o : Outcome) (ans : REG16)
  -- `robot_disconnect()`
  | disconnect
  deriving DecidableEq, Repr

inductive MainEvent
  | driver (e : Event)
  -- `modbus_close` and `modbus_free` of a live context
  | freed
  -- a Modbus operation on NULL or on a context that was freed
  | misuse
  deriving DecidableEq, Repr

/-- The next step of the driver is a Modbus operation on `plc`. -/
def Driver.UsesPlc (d : Driver) : Prop := ∃ a ∈ d.act, a ≠ .fail

instance (d : Driver) : Decidable d.UsesPlc :=
  inferInstanceAs (Decidable (∃ a ∈ d.act, a ≠ .fail))

def main : Machine Main MainInput MainEvent
  | s, .connect ip =>
    if s.driver = .idle ∧ s.connected = false then
      let (plc, contexts) := modbus_new_tcp ip s.contexts
      some (.driver (.call .connect), ⟨.busy .connect 0, plc, contexts, false⟩)
    else none
  | s, .call c =>
    if s.driver = .idle ∧ s.connected = true ∧ c ≠ .connect then
      some (.driver (.call c), { s with driver := .busy c 0 })
    else none
  | s, .op o ans =>
    if s.driver.UsesPlc ∧ ¬ s.contexts.Usable s.plc then some (.misuse, s)
    else (s.driver.step o ans).map fun (e, d) =>
      (.driver e, { s with driver := d, connected := s.connected || e == .ret .connect true })
  | s, .disconnect =>
    if s.driver = .idle ∧ s.connected = true then
      if s.contexts.Usable s.plc then
        some (.freed, { s with contexts := modbus_free s.plc s.contexts, connected := false })
      else some (.misuse, s)
    else none

/-- What one step of the program can be. -/
inductive Main.Step (s : Main) : MainInput → MainEvent → Main → Prop
  | connect (ip : List UInt8) : s.driver = .idle → s.connected = false →
      Step s (.connect ip) (.driver (.call .connect)) ⟨.busy .connect 0,
        (modbus_new_tcp ip s.contexts).1, (modbus_new_tcp ip s.contexts).2, false⟩
  | call (c : Call) : s.driver = .idle → s.connected = true → c ≠ .connect →
      Step s (.call c) (.driver (.call c)) { s with driver := .busy c 0 }
  | op {o : Outcome} {ans : REG16} {e : Event} {d : Driver} : Driver.Step o ans s.driver e d →
      Step s (.op o ans) (.driver e)
        { s with driver := d, connected := s.connected || e == .ret .connect true }
  | freed : s.driver = .idle → s.connected = true → s.contexts.Usable s.plc →
      Step s .disconnect .freed
        { s with contexts := modbus_free s.plc s.contexts, connected := false }
  | misuse {i : MainInput} : s.driver ≠ .idle ∨ s.connected = true → ¬ s.contexts.Usable s.plc →
      Step s i .misuse s

theorem main_step {s t : Main} {i : MainInput} {e : MainEvent} (h : main s i = some (e, t)) :
    Main.Step s i e t := by
  cases i with
  | connect ip =>
    simp only [main] at h
    split at h
    · rename_i hs
      simp only [Option.some.injEq, Prod.mk.injEq] at h
      obtain ⟨rfl, rfl⟩ := h
      exact .connect ip hs.1 hs.2
    · cases h
  | call c =>
    simp only [main] at h
    split at h
    · rename_i hs
      simp only [Option.some.injEq, Prod.mk.injEq] at h
      obtain ⟨rfl, rfl⟩ := h
      exact .call c hs.1 hs.2.1 hs.2.2
    · cases h
  | op o ans =>
    simp only [main] at h
    split at h
    · rename_i hs
      simp only [Option.some.injEq, Prod.mk.injEq] at h
      obtain ⟨rfl, rfl⟩ := h
      refine .misuse (Or.inl ?_) hs.2
      intro hd
      obtain ⟨a, ha, -⟩ := hs.1
      rw [hd] at ha
      cases ha
    · obtain ⟨⟨e', d⟩, hd, he⟩ := Option.map_eq_some_iff.mp h
      cases he
      exact .op (driver_step hd)
  | disconnect =>
    simp only [main] at h
    split at h
    · rename_i hs
      split at h
      · simp only [Option.some.injEq, Prod.mk.injEq] at h
        obtain ⟨rfl, rfl⟩ := h
        exact .freed hs.1 hs.2 ‹_›
      · simp only [Option.some.injEq, Prod.mk.injEq] at h
        obtain ⟨rfl, rfl⟩ := h
        exact .misuse (Or.inr hs.2) ‹_›
    · cases h

/-! ## The ledger of the contexts -/

/-- The attempts of `robot_connect` that returned false. -/
def failures (tr : List MainEvent) : Nat := tr.count (.driver (.ret .connect false))

/-- The program is inside a driver function, or past a connect that returned true. -/
def Main.Holds (s : Main) : Prop := s.driver ≠ .idle ∨ s.connected = true

instance (s : Main) : Decidable s.Holds := inferInstanceAs (Decidable (_ ∨ _))

/-- The contexts that the program holds by `plc`: one or none. -/
def Main.held (s : Main) : Nat := if s.Holds then 1 else 0

theorem held_one {s : Main} (h : s.Holds) : s.held = 1 := if_pos h

theorem held_zero {s : Main} (h : ¬ s.Holds) : s.held = 0 := if_neg h

/-- The driver is inside this call. -/
def Driver.In (c : Call) : Driver → Prop
  | .busy c' _ => c' = c
  | .failing c' => c' = c
  | .idle => False

theorem Driver.In.not_idle {c : Call} {d : Driver} (h : d.In c) : d ≠ .idle := by
  rintro rfl
  exact h

theorem Driver.In.unique {c c' : Call} {d : Driver} (h : d.In c) (h' : d.In c') : c = c' := by
  match d with
  | .busy _ _ => exact h.symm.trans h'
  | .failing _ => exact h.symm.trans h'
  | .idle => exact h.elim

/-- A step of the driver stays in its call, or returns from it. -/
theorem in_or_ret {o : Outcome} {ans : REG16} {d d' : Driver} {e : Event}
    (h : Driver.Step o ans d e d') : ∃ c, d.In c ∧
      ((d'.In c ∧ ∀ c' b, e ≠ .ret c' b) ∨ (d' = .idle ∧ ∃ b, e = .ret c b)) := by
  have hw : ∀ o a w c' b, writeEvent o a w ≠ .ret c' b := fun _ _ _ _ _ => writeEvent_ne_ret
  cases h
  case failed => exact ⟨_, rfl, Or.inr ⟨rfl, _, rfl⟩⟩
  case invalid => exact ⟨_, rfl, Or.inr ⟨rfl, _, rfl⟩⟩
  case returned => exact ⟨_, rfl, Or.inr ⟨rfl, _, rfl⟩⟩
  all_goals first
    | exact ⟨_, rfl, Or.inl ⟨rfl, hw _ _ _⟩⟩
    | exact ⟨_, rfl, Or.inl ⟨rfl, by simp⟩⟩

/-- Every live context is the one that `plc` holds, or was left by a failed attempt. -/
structure Ledger (tr : List MainEvent) (s : Main) : Prop where
  uses : .misuse ∉ tr
  usable : s.Holds → s.contexts.Usable s.plc
  count : s.contexts.live.card = failures tr + s.held
  inside : ∀ c, s.driver.In c → (c = .connect ↔ s.connected = false)

/-- An address that fits into the address field of a context. -/
def Fits (ip : List UInt8) : Prop := 0 < strlen ip ∧ strlen ip < 16

instance (ip : List UInt8) : Decidable (Fits ip) := inferInstanceAs (Decidable (_ ∧ _))

theorem modbus_new_tcp_fits {ip : List UInt8} (h : Fits ip) (p : Pool) :
    modbus_new_tcp ip p = (some p.alloc.1, p.alloc.2) := by
  obtain ⟨h1, h2⟩ := h
  unfold modbus_new_tcp
  simp only
  rw [if_neg (by omega), if_neg (by omega)]

/-- An address that does not fit leaves no context. -/
theorem modbus_new_tcp_refused {ip : List UInt8} (h : ¬ Fits ip) (p : Pool) :
    (modbus_new_tcp ip p).1 = none ∧ (modbus_new_tcp ip p).2.live = p.live := by
  unfold Fits at h
  unfold modbus_new_tcp
  simp only
  by_cases h0 : strlen ip = 0
  · rw [if_pos h0]
    exact ⟨rfl, p.alloc_free⟩
  · rw [if_neg h0, if_pos (by omega)]
    exact ⟨rfl, p.alloc_free⟩

theorem failures_snoc (tr : List MainEvent) (e : MainEvent) :
    failures (tr ++ [e]) = failures tr + if e = .driver (.ret .connect false) then 1 else 0 := by
  unfold failures
  rw [List.count_append, List.count_singleton]
  simp only [beq_iff_eq]

theorem ledger_connect {tr : List MainEvent} {s : Main} {ip : List UInt8} (hI : Ledger tr s)
    (hd : s.driver = .idle) (hc : s.connected = false) (hip : Fits ip) :
    Ledger (tr ++ [.driver (.call .connect)]) ⟨.busy .connect 0, (modbus_new_tcp ip s.contexts).1,
      (modbus_new_tcp ip s.contexts).2, false⟩ := by
  have hbefore : s.held = 0 := held_zero (by simp [Main.Holds, hd, hc])
  have hcount := hI.count
  rw [modbus_new_tcp_fits hip]
  refine ⟨by simp [hI.uses], fun _ => s.contexts.alloc_usable, ?_, ?_⟩
  · rw [failures_snoc, if_neg (by simp), held_one (Or.inl (by simp))]
    have hcard := s.contexts.alloc_card
    simp only
    omega
  · rintro c rfl
    exact ⟨fun _ => rfl, fun _ => rfl⟩

theorem ledger_call {tr : List MainEvent} {s : Main} {c : Call} (hI : Ledger tr s)
    (hc : s.connected = true) (hne : c ≠ .connect) :
    Ledger (tr ++ [.driver (.call c)]) { s with driver := .busy c 0 } := by
  have hbefore : s.held = 1 := held_one (Or.inr hc)
  have hafter : Main.held { s with driver := .busy c 0 } = 1 := held_one (Or.inr hc)
  have hcount := hI.count
  refine ⟨by simp [hI.uses], fun _ => hI.usable (Or.inr hc), ?_, ?_⟩
  · rw [failures_snoc, if_neg (by simp), hafter]
    simp only
    omega
  · rintro c' rfl
    simp [hc, hne]

/-- The program after a step of the driver. -/
def Main.afterOp (s : Main) (d : Driver) (e : Event) : Main :=
  { s with driver := d, connected := s.connected || e == .ret .connect true }

/-- A return of `robot_connect` with false takes the context out of the program's hands, and no
other step of the driver does. -/
theorem held_afterOp {tr : List MainEvent} {s : Main} {o : Outcome} {ans : REG16} {e : Event}
    {d : Driver} (hI : Ledger tr s) (h : Driver.Step o ans s.driver e d) :
    (s.afterOp d e).held + (if e = .ret .connect false then 1 else 0) = 1 := by
  obtain ⟨c, hc, hd⟩ := in_or_ret h
  have hinside := hI.inside c hc
  rcases hd with ⟨hd, hne⟩ | ⟨rfl, b, rfl⟩
  · rw [if_neg (hne _ _), held_one (Or.inl hd.not_idle)]
  · by_cases hcon : c = .connect
    · subst hcon
      have hfalse := hinside.mp rfl
      cases b with
      | false =>
        rw [if_pos rfl, held_zero (by simp [Main.Holds, Main.afterOp, hfalse])]
      | true => rw [if_neg (by simp), held_one (Or.inr (by simp [Main.afterOp]))]
    · have htrue : s.connected = true := by
        rw [← Bool.not_eq_false]
        exact fun hf => hcon (hinside.mpr hf)
      rw [if_neg (by simp [hcon]), held_one (Or.inr (by simp [Main.afterOp, htrue]))]

theorem ledger_op {tr : List MainEvent} {s : Main} {o : Outcome} {ans : REG16} {e : Event}
    {d : Driver} (hI : Ledger tr s) (h : Driver.Step o ans s.driver e d) :
    Ledger (tr ++ [.driver e]) (s.afterOp d e) := by
  obtain ⟨c, hc, hd⟩ := in_or_ret h
  have hbefore : s.held = 1 := held_one (Or.inl hc.not_idle)
  have husable := hI.usable (Or.inl hc.not_idle)
  have hcount := hI.count
  have hafter := held_afterOp hI h
  refine ⟨by simp [hI.uses], fun _ => husable, ?_, ?_⟩
  · rw [failures_snoc]
    simp only [MainEvent.driver.injEq]
    have hsame : (s.afterOp d e).contexts = s.contexts := rfl
    rw [hsame]
    omega
  · intro c' hc'
    rcases hd with ⟨hd, hne⟩ | ⟨rfl, -⟩
    · obtain rfl := hd.unique hc'
      have hsame : (s.afterOp d e).connected = s.connected := by simp [Main.afterOp, hne]
      rw [hsame]
      exact hI.inside c hc
    · exact hc'.elim

theorem ledger_freed {tr : List MainEvent} {s : Main} (hI : Ledger tr s)
    (hd : s.driver = .idle) (hc : s.connected = true) :
    Ledger (tr ++ [.freed])
      { s with contexts := modbus_free s.plc s.contexts, connected := false } := by
  have hbefore : s.held = 1 := held_one (Or.inr hc)
  have hcount := hI.count
  have hnot : ¬ Main.Holds ⟨s.driver, s.plc, modbus_free s.plc s.contexts, false⟩ := by
    simp [Main.Holds, hd]
  refine ⟨by simp [hI.uses], fun hh => absurd hh hnot, ?_, ?_⟩
  · rw [failures_snoc, if_neg (by simp), held_zero hnot]
    obtain ⟨x, hx, hl⟩ := hI.usable (Or.inr hc)
    have hcard := s.contexts.free_card ⟨x, rfl, hl⟩
    rw [hx]
    simp only [modbus_free]
    omega
  · intro c hin
    exact absurd hd hin.not_idle

theorem ledger_step {tr : List MainEvent} {s t : Main} {i : MainInput} {e : MainEvent}
    (hI : Ledger tr s) (hip : ∀ ip, i = .connect ip → Fits ip) (h : Main.Step s i e t) :
    Ledger (tr ++ [e]) t := by
  cases h with
  | connect ip hd hc => exact ledger_connect hI hd hc (hip ip rfl)
  | call c hd hc hne => exact ledger_call hI hc hne
  | op hs => exact ledger_op hI hs
  | freed hd hc => exact ledger_freed hI hd hc
  | misuse hh hu => exact absurd (hI.usable hh) hu

theorem ledger_start : Ledger [] Main.start :=
  ⟨by simp, fun hh => absurd hh (by decide), rfl, fun _ hc => hc.elim⟩

/-! ## The law -/

/-- Any addresses that fit, and any retries. -/
def fittingAddresses : Guard Main MainInput MainEvent
  | _, _, .connect ip => Fits ip
  | _, _, _ => True

instance (tr : List MainEvent) (s : Main) : (i : MainInput) → Decidable (fittingAddresses tr s i)
  | .connect ip => inferInstanceAs (Decidable (Fits ip))
  | .call _ | .op _ _ | .disconnect => .isTrue trivial

/-- Such addresses, and no call of `robot_connect` right after one that returned false. -/
def noRetry : Guard Main MainInput MainEvent
  | tr, _, .connect ip => Fits ip ∧ tr.getLast? ≠ some (.driver (.ret .connect false))
  | _, _, _ => True

instance (tr : List MainEvent) (s : Main) : (i : MainInput) → Decidable (noRetry tr s i)
  | .connect ip => inferInstanceAs (Decidable (Fits ip ∧ _))
  | .call _ | .op _ _ | .disconnect => .isTrue trivial

/-- Every Modbus operation so far was on a live context, and between driver calls at most one is
live: the one in `plc` while the program is connected, and none after `robot_disconnect`. -/
structure Disciplined (tr : List MainEvent) (s : Main) : Prop where
  uses : .misuse ∉ tr
  one : s.driver = .idle → s.contexts.live.card ≤ 1
  connected : s.driver = .idle → s.connected = true →
    ∃ x, s.plc = some x ∧ s.contexts.live = {x}
  disconnected : tr.getLast? = some .freed → s.contexts.live = ∅

/-- One attempt of `robot_connect` has failed, and its return is the last event of the run. -/
def OnlyLast (tr : List MainEvent) (s : Main) : Prop :=
  failures tr = 1 ∧ ¬ s.Holds ∧ tr.getLast? = some (.driver (.ret .connect false))

theorem onlyLast_step {tr : List MainEvent} {s t : Main} {i : MainInput} {e : MainEvent}
    (hI : Ledger tr s) (hf : failures tr = 0) (h : Main.Step s i e t) :
    failures (tr ++ [e]) = 0 ∨ OnlyLast (tr ++ [e]) t := by
  rw [failures_snoc, hf]
  cases h with
  | connect ip _ _ => exact Or.inl (by simp)
  | call c _ _ _ => exact Or.inl (by simp)
  | freed _ _ _ => exact Or.inl (by simp)
  | misuse _ _ => exact Or.inl (by simp)
  | op hs =>
    rename_i e d
    have hafter := held_afterOp hI hs
    by_cases he : e = .ret .connect false
    · subst he
      refine Or.inr ⟨by rw [failures_snoc, hf]; simp, fun hh => ?_, by simp⟩
      have hone : (s.afterOp d (.ret .connect false)).held = 1 := held_one hh
      rw [if_pos rfl] at hafter
      omega
    · exact Or.inl (by simp [he])

/-- After a failed attempt the program can only retry. -/
theorem step_of_not_holds {s t : Main} {i : MainInput} {e : MainEvent} (hs : ¬ s.Holds)
    (h : Main.Step s i e t) : ∃ ip, i = .connect ip := by
  cases h with
  | connect ip _ _ => exact ⟨ip, rfl⟩
  | call c _ hc _ => exact absurd (Or.inr hc) hs
  | freed _ hc _ => exact absurd (Or.inr hc) hs
  | misuse hh _ => exact absurd hh hs
  | op hd =>
    obtain ⟨c, hc, -⟩ := in_or_ret hd
    exact absurd (Or.inl hc.not_idle) hs

theorem disciplined_run {s : Main} {tr : List MainEvent} (h : Run main noRetry Main.start tr s) :
    Ledger tr s ∧ (failures tr = 0 ∨ OnlyLast tr s) := by
  apply h.invariant (fun tr s => Ledger tr s ∧ (failures tr = 0 ∨ OnlyLast tr s))
  · exact ⟨ledger_start, Or.inl rfl⟩
  · rintro tr s i e t ⟨hI, hf⟩ hi hM
    have hstep := main_step hM
    refine ⟨ledger_step hI ?_ hstep, ?_⟩
    · rintro ip rfl
      exact hi.1
    · rcases hf with hf | ⟨-, hs, hlast⟩
      · exact onlyLast_step hI hf hstep
      · obtain ⟨ip, rfl⟩ := step_of_not_holds hs hstep
        exact absurd hlast hi.2

/-- In every run each live context is the one in `plc` or was left by a failed attempt. -/
theorem each_failed_attempt_leaves_a_context {s : Main} {tr : List MainEvent}
    (h : Run main fittingAddresses Main.start tr s) :
    .misuse ∉ tr ∧ s.contexts.live.card = failures tr + s.held := by
  have hI : Ledger tr s := by
    apply h.invariant Ledger ledger_start
    intro tr s i e t hI hi hM
    apply ledger_step hI _ (main_step hM)
    rintro ip rfl
    exact hi
  exact ⟨hI.uses, hI.count⟩

/-- With an address that does not fit, `robot_connect` goes on with NULL. -/
theorem a_refused_address_is_misused {s t : Main} {e : MainEvent} {ip : List UInt8}
    (hip : ¬ Fits ip) (hs : s.driver = .idle ∧ s.connected = false)
    (h : main s (.connect ip) = some (e, t)) (o : Outcome) (ans : REG16) :
    main t (.op o ans) = some (.misuse, t) := by
  simp only [main, if_pos hs, Option.some.injEq, Prod.mk.injEq] at h
  obtain ⟨-, rfl⟩ := h
  have hnull : ¬ (modbus_new_tcp ip s.contexts).2.Usable (modbus_new_tcp ip s.contexts).1 := by
    rw [(modbus_new_tcp_refused hip _).1]
    rintro ⟨x, hx, -⟩
    cases hx
  have huses : (Driver.busy .connect 0).UsesPlc := by decide
  simp only [main]
  rw [if_pos ⟨huses, hnull⟩]

/-- When each address fits and no failed attempt is followed by a retry, every Modbus operation is
on a live context, and no context is lost. -/
theorem contexts_are_disciplined (s : Main) (tr : List MainEvent)
    (h : Run main noRetry Main.start tr s) : Disciplined tr s := by
  obtain ⟨hI, hf⟩ := disciplined_run h
  have hcount := hI.count
  refine ⟨hI.uses, fun hd => ?_, fun hd hc => ?_, fun hlast => ?_⟩
  · rcases hf with hf | ⟨hf, hs, -⟩
    · have hle : s.held ≤ 1 := by
        unfold Main.held
        split <;> omega
      omega
    · rw [held_zero hs] at hcount
      omega
  · have hone : s.held = 1 := held_one (Or.inr hc)
    have hf : failures tr = 0 := by
      rcases hf with hf | ⟨-, hs, -⟩
      · exact hf
      · exact absurd (Or.inr hc) hs
    exact s.contexts.live_of_usable (hI.usable (Or.inr hc)) (by omega)
  · have hf : failures tr = 0 := by
      rcases hf with hf | ⟨-, -, hl⟩
      · exact hf
      · rw [hlast] at hl
        cases hl
    obtain ⟨pre, rfl⟩ := List.getLast?_eq_some_iff.mp hlast
    obtain ⟨u, i, -, -, hM⟩ := h.last
    have hnot : ¬ s.Holds := by
      generalize he : MainEvent.freed = e at hM
      cases main_step hM with
      | freed hd _ _ => simp [Main.Holds, hd]
      | connect => cases he
      | call => cases he
      | op => cases he
      | misuse => cases he
    rw [held_zero hnot, hf] at hcount
    exact Finset.card_eq_zero.mp hcount

/-- The driver takes `n` steps, and no Modbus operation fails. -/
def okOps (n : Nat) : List MainInput := List.replicate n (.op .ok 0)

/-- Two rounds of the program of main.c. -/
def twoRounds (ip : List UInt8) : List MainInput :=
  .connect ip :: okOps 8 ++ .call .clear :: okOps 4 ++ .disconnect :: .connect ip :: okOps 8

/-- The law after a reconnect. -/
theorem contexts_are_disciplined_run :
    ∃ tr s, Run main noRetry Main.start tr s ∧ s.connected = true ∧ s.driver = .idle ∧
      Disciplined tr s := by
  have hrun : ∃ tr s, Run main noRetry Main.start tr s ∧
      decide (s.connected = true ∧ s.driver = .idle) = true :=
    exists_run_of_execWith (fun _ s => _) (twoRounds [49]) (by decide +kernel)
  obtain ⟨tr, s, h, hP⟩ := hrun
  obtain ⟨hc, hd⟩ := of_decide_eq_true hP
  exact ⟨tr, s, h, hc, hd, contexts_are_disciplined s tr h⟩

/-- The loop of main.c with one failed attempt: after `robot_disconnect` a context is still live.
And with an empty address the first operation is on NULL. -/
theorem a_retry_loses_a_context :
    (∃ tr s, Run main fittingAddresses Main.start tr s ∧ tr.getLast? = some .freed ∧
      s.contexts.live ≠ ∅) ∧
    ∃ tr s, Run main (fun _ _ _ => True) Main.start tr s ∧ .misuse ∈ tr := by
  constructor
  · have hrun : ∃ tr s, Run main fittingAddresses Main.start tr s ∧
        decide (tr.getLast? = some .freed ∧ s.contexts.live ≠ ∅) = true :=
      exists_run_of_execWith (fun tr s => _)
        (.connect [49] :: .op (.failed false) 0 :: .op .ok 0 :: .connect [49] ::
          okOps 8 ++ [MainInput.disconnect]) (by decide +kernel)
    obtain ⟨tr, s, h, hP⟩ := hrun
    exact ⟨tr, s, h, of_decide_eq_true hP⟩
  · have hrun : ∃ tr s, Run main (fun _ _ _ => True) Main.start tr s ∧
        decide (.misuse ∈ tr) = true :=
      exists_run_of_execWith (fun tr _ => _) [.connect [], .op .ok 0] (by decide +kernel)
    obtain ⟨tr, s, h, hP⟩ := hrun
    exact ⟨tr, s, h, of_decide_eq_true hP⟩

end robotchess
