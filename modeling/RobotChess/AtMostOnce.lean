-- The robot against any PC at all. Each motion has its own ALLOW_MOVE_1, which the
-- robot has read before, and between two motions the robot reads an acknowledgement
-- that was written after the first of the two reads. So armed words that stay in
-- memory start no second motion.
import RobotChess.ReadyWord

open runs

namespace robotchess

/-! ## The law -/

/-- The write of ALLOW_MOVE_1, the read of it, the write of CMD_CLR_READY, and the read of that,
which belong to a motion. All are positions in a trace, and a motion goes by the position of its
start. -/
structure Exchange where
  allow : Nat → Nat
  armed : Nat → Nat
  clear : Nat → Nat
  acked : Nat → Nat

def StartAt (tr : List Event) (k : Nat) : Prop := ∃ p, tr[k]? = some (.start p)

/-- The motion that starts at `k` has an ALLOW_MOVE_1 that the robot read before the start. -/
structure Exchange.Allows (x : Exchange) (tr : List Event) (k : Nat) : Prop where
  write : tr[x.allow k]? = some (.write .ADDR_CMD_1 (CMD.word .CMD_ALLOW_MOVE_1))
  read : tr[x.armed k]? = some (.read nWcmd1Addr allowMoveCmd1)
  order : x.allow k < x.armed k ∧ x.armed k < k

/-- The motion that starts at `k` has a CMD_CLR_READY, written after the robot read its
ALLOW_MOVE_1, that the robot reads after the start. -/
structure Exchange.Clears (x : Exchange) (tr : List Event) (k : Nat) : Prop where
  write : tr[x.clear k]? = some (.write .ADDR_CMD_1 (CMD.word .CMD_CLR_READY))
  read : tr[x.acked k]? = some (.read nWcmd1Addr readyClearCmd)
  order : x.armed k < x.clear k ∧ x.clear k < x.acked k ∧ k < x.acked k

/-- Each motion has its ALLOW_MOVE_1, and each motion but the last one has its CMD_CLR_READY,
which the robot reads before the ALLOW_MOVE_1 of the next motion is written. -/
structure Exchange.Matches (x : Exchange) (tr : List Event) : Prop where
  allows : ∀ k, StartAt tr k → x.Allows tr k
  clears : ∀ j k, StartAt tr j → StartAt tr k → j < k → x.Clears tr j ∧ x.acked j < x.allow k

/-! ## The invariant -/

theorem Exchange.Allows.snoc {x : Exchange} {tr : List Event} {k : Nat} (h : x.Allows tr k)
    (e : Event) : x.Allows (tr ++ [e]) k :=
  ⟨at_snoc h.write e, at_snoc h.read e, h.order⟩

theorem Exchange.Clears.snoc {x : Exchange} {tr : List Event} {k : Nat} (h : x.Clears tr k)
    (e : Event) : x.Clears (tr ++ [e]) k :=
  ⟨at_snoc h.write e, at_snoc h.read e, h.order⟩

/-- The motion that starts at `k` gets its ALLOW_MOVE_1. -/
def Exchange.arm (x : Exchange) (k w r : Nat) : Exchange :=
  ⟨Function.update x.allow k w, Function.update x.armed k r, x.clear, x.acked⟩

/-- The motion that starts at `k` gets its CMD_CLR_READY. -/
def Exchange.ack (x : Exchange) (k c r : Nat) : Exchange :=
  ⟨x.allow, x.armed, Function.update x.clear k c, Function.update x.acked k r⟩

section
variable (x : Exchange) {tr : List Event} {j k : Nat}

theorem arm_self (k w r : Nat) : (x.arm k w r).allow k = w ∧ (x.arm k w r).armed k = r :=
  ⟨Function.update_self _ _ _, Function.update_self _ _ _⟩

theorem arm_other (h : j ≠ k) (w r : Nat) :
    (x.arm k w r).allow j = x.allow j ∧ (x.arm k w r).armed j = x.armed j :=
  ⟨Function.update_of_ne h _ _, Function.update_of_ne h _ _⟩

theorem ack_self (k c r : Nat) : (x.ack k c r).clear k = c ∧ (x.ack k c r).acked k = r :=
  ⟨Function.update_self _ _ _, Function.update_self _ _ _⟩

theorem ack_other (h : j ≠ k) (c r : Nat) :
    (x.ack k c r).clear j = x.clear j ∧ (x.ack k c r).acked j = x.acked j :=
  ⟨Function.update_of_ne h _ _, Function.update_of_ne h _ _⟩

variable {x}

theorem Exchange.Allows.arm (h : x.Allows tr j) (hj : j ≠ k) (w r : Nat) :
    (x.arm k w r).Allows tr j := by
  obtain ⟨ha, hr⟩ := arm_other x hj w r
  exact ⟨by rw [ha]; exact h.write, by rw [hr]; exact h.read, by rw [ha, hr]; exact h.order⟩

theorem Exchange.Clears.arm (h : x.Clears tr j) (hj : j ≠ k) (w r : Nat) :
    (x.arm k w r).Clears tr j := by
  obtain ⟨-, hr⟩ := arm_other x hj w r
  exact ⟨h.write, h.read, by rw [hr]; exact h.order⟩

theorem Exchange.Allows.ack (h : x.Allows tr j) (k c r : Nat) : (x.ack k c r).Allows tr j :=
  ⟨h.write, h.read, h.order⟩

theorem Exchange.Clears.ack (h : x.Clears tr j) (hj : j ≠ k) (c r : Nat) :
    (x.ack k c r).Clears tr j := by
  obtain ⟨hc, hr⟩ := ack_other x hj c r
  exact ⟨by rw [hc]; exact h.write, by rw [hr]; exact h.read, by rw [hc, hr]; exact h.order⟩

end

theorem startAt_snoc {tr : List Event} {e : Event} {k : Nat} (h : StartAt (tr ++ [e]) k) :
    StartAt tr k ∨ (k = tr.length ∧ ∃ p, e = .start p) := by
  obtain ⟨p, hp⟩ := h
  rcases at_of_snoc hp with h | ⟨rfl, h⟩
  · exact Or.inl ⟨p, h⟩
  · exact Or.inr ⟨rfl, p, h⟩

theorem startAt_plain {tr : List Event} {e : Event} {k : Nat} (he : e.start? = none)
    (h : StartAt (tr ++ [e]) k) : StartAt tr k := by
  rcases startAt_snoc h with h | ⟨-, p, rfl⟩
  · exact h
  · cases he

theorem Exchange.Matches.snoc {x : Exchange} {tr : List Event} {e : Event} (h : x.Matches tr)
    (he : e.start? = none) : x.Matches (tr ++ [e]) := by
  refine ⟨?_, ?_⟩
  · intro k hk
    exact (h.allows k (startAt_plain he hk)).snoc e
  · intro j k hj hk hjk
    obtain ⟨h1, h2⟩ := h.clears j k (startAt_plain he hj) (startAt_plain he hk) hjk
    exact ⟨h1.snoc e, h2⟩

/-- All motions are acknowledged before position `w`. -/
def Settled (x : Exchange) (tr : List Event) (w : Nat) : Prop :=
  ∀ j, StartAt tr j → x.Clears tr j ∧ x.acked j < w

/-- A CMD_CLR_READY in register 540 is newer than position `r`. -/
def ClearAfter (tr : List Event) (m : Mem) (r : Nat) : Prop :=
  m.cmd1 = readyClearCmd → ∃ c : Nat, tr[c]? = some (.write .ADDR_CMD_1 readyClearCmd) ∧ r < c

/-- Before the read of register 540: all motions are acknowledged, and an ALLOW_MOVE_1 in the
register is newer than that. -/
def Rests (x : Exchange) (tr : List Event) (m : Mem) : Prop :=
  Settled x tr tr.length ∧ (m.cmd1 = allowMoveCmd1 →
    ∃ w : Nat, tr[w]? = some (.write .ADDR_CMD_1 allowMoveCmd1) ∧ Settled x tr w)

/-- The robot has read an ALLOW_MOVE_1 that is newer than all acknowledgements. -/
def Holds (x : Exchange) (tr : List Event) (m : Mem) : Prop :=
  ∃ w r : Nat, tr[w]? = some (.write .ADDR_CMD_1 allowMoveCmd1) ∧
    tr[r]? = some (.read nWcmd1Addr allowMoveCmd1) ∧ w < r ∧ Settled x tr w ∧ ClearAfter tr m r

/-- The robot is in its last motion or waits after it. -/
def Moves (x : Exchange) (tr : List Event) (m : Mem) : Prop :=
  ∃ k : Nat, StartAt tr k ∧
    (∀ j, StartAt tr j → j ≠ k → x.Clears tr j ∧ x.acked j < x.allow k) ∧
    ClearAfter tr m (x.armed k)

def Pending (x : Exchange) (tr : List Event) (m : Mem) : Phase → Prop
  | .boot | .idle | .checked | .acked => Rests x tr m
  | .holding | .armed | .typed _ | .sourced _ _ | .latched _ => Holds x tr m
  | .moving | .waiting => Moves x tr m
  | .off => True

theorem Settled.snoc {x : Exchange} {tr : List Event} {w : Nat} {e : Event}
    (h : Settled x tr w) (he : e.start? = none) : Settled x (tr ++ [e]) w := by
  intro j hj
  obtain ⟨h1, h2⟩ := h j (startAt_plain he hj)
  exact ⟨h1.snoc e, h2⟩

theorem Settled.later {x : Exchange} {tr : List Event} {w v : Nat} (h : Settled x tr w)
    (hv : w ≤ v) : Settled x tr v := by
  intro j hj
  obtain ⟨h1, h2⟩ := h j hj
  exact ⟨h1, by omega⟩

/-- An event that starts no motion. A word that is new in register 540 is written by it. -/
structure Wrote (m m' : Mem) (e : Event) : Prop where
  plain : e.start? = none
  cmd1 : ∀ v, m'.cmd1 = v → m.cmd1 = v ∨ e = .write .ADDR_CMD_1 v

section
variable {x : Exchange} {tr : List Event} {m m' : Mem} {e : Event}

theorem clearAfter_snoc {r : Nat} (h : ClearAfter tr m r) (he : Wrote m m' e)
    (hr : r < tr.length) : ClearAfter (tr ++ [e]) m' r := by
  intro hw
  rcases he.cmd1 _ hw with hw | rfl
  · obtain ⟨c, hc, hrc⟩ := h hw
    exact ⟨c, at_snoc hc e, hrc⟩
  · exact ⟨tr.length, at_end tr _, hr⟩

theorem rests_snoc (h : Rests x tr m) (he : Wrote m m' e) : Rests x (tr ++ [e]) m' := by
  obtain ⟨hs, ha⟩ := h
  refine ⟨(hs.snoc he.plain).later (by simp), ?_⟩
  intro hw
  rcases he.cmd1 _ hw with hw | rfl
  · obtain ⟨w, hw, hs⟩ := ha hw
    exact ⟨w, at_snoc hw e, hs.snoc he.plain⟩
  · exact ⟨tr.length, at_end tr _, hs.snoc he.plain⟩

theorem holds_snoc (h : Holds x tr m) (he : Wrote m m' e) : Holds x (tr ++ [e]) m' := by
  obtain ⟨w, r, hw, hr, hlt, hs, hc⟩ := h
  exact ⟨w, r, at_snoc hw e, at_snoc hr e, hlt, hs.snoc he.plain,
    clearAfter_snoc hc he (lt_of_at hr)⟩

theorem moves_snoc (hx : x.Matches tr) (h : Moves x tr m) (he : Wrote m m' e) :
    Moves x (tr ++ [e]) m' := by
  obtain ⟨k, ⟨p, hk⟩, hs, hc⟩ := h
  have hlt : x.armed k < tr.length := by
    have h1 := (hx.allows k ⟨p, hk⟩).order.2
    have h2 := lt_of_at hk
    omega
  refine ⟨k, ⟨p, at_snoc hk e⟩, ?_, clearAfter_snoc hc he hlt⟩
  intro j hj hne
  obtain ⟨h1, h2⟩ := hs j (startAt_plain he.plain hj) hne
  exact ⟨h1.snoc e, h2⟩

theorem pending_snoc {p : Phase} (hx : x.Matches tr) (h : Pending x tr m p) (he : Wrote m m' e) :
    Pending x (tr ++ [e]) m' p := by
  cases p
  case boot => exact rests_snoc h he
  case idle => exact rests_snoc h he
  case checked => exact rests_snoc h he
  case acked => exact rests_snoc h he
  case moving => exact moves_snoc hx h he
  case waiting => exact moves_snoc hx h he
  case off => trivial
  all_goals exact holds_snoc h he

/-- The robot gives up the ALLOW_MOVE_1 that it has read. -/
theorem Holds.rests (h : Holds x tr m) : Rests x tr m := by
  obtain ⟨w, r, hw, -, -, hs, -⟩ := h
  exact ⟨hs.later (Nat.le_of_lt (lt_of_at hw)), fun _ => ⟨w, hw, hs⟩⟩

/-- The robot reads ALLOW_MOVE_1 in register 540. -/
theorem holds_allowed (h : Rests x tr m) (hw : m.cmd1 = allowMoveCmd1) :
    Holds x (tr ++ [.read nWcmd1Addr allowMoveCmd1]) m := by
  obtain ⟨w, hat, hs⟩ := h.2 hw
  refine ⟨w, tr.length, at_snoc hat _, at_end tr _, lt_of_at hat, hs.snoc rfl, ?_⟩
  intro hc
  rw [hw] at hc
  exact absurd hc allow1_ne_clrReady

theorem StartAt.lt {k : Nat} (h : StartAt tr k) : k < tr.length := by
  obtain ⟨p, hp⟩ := h
  exact lt_of_at hp

/-- A motion starts: the ALLOW_MOVE_1 that the robot holds is its own. -/
theorem moves_start (hx : x.Matches tr) (h : Holds x tr m) (p : Params) :
    ∃ y : Exchange, y.Matches (tr ++ [.start p]) ∧ Moves y (tr ++ [.start p]) m := by
  obtain ⟨w, r, hw, hr, hlt, hs, hc⟩ := h
  obtain ⟨ha, hb⟩ := arm_self x tr.length w r
  have hne : ∀ j, StartAt tr j → j ≠ tr.length := fun j hj => Nat.ne_of_lt hj.lt
  have hclears : ∀ j, StartAt tr j → x.Clears tr j →
      (x.arm tr.length w r).Clears (tr ++ [.start p]) j :=
    fun j hj h => (h.arm (hne j hj) w r).snoc _
  have hnew : (x.arm tr.length w r).Allows (tr ++ [.start p]) tr.length := by
    refine ⟨?_, ?_, ?_⟩
    · rw [ha]
      exact at_snoc hw _
    · rw [hb]
      exact at_snoc hr _
    · rw [ha, hb]
      exact ⟨hlt, lt_of_at hr⟩
  have hold : ∀ j, StartAt tr j → (x.arm tr.length w r).Clears (tr ++ [.start p]) j ∧
      x.acked j < (x.arm tr.length w r).allow tr.length := by
    intro j hj
    obtain ⟨h1, h2⟩ := hs j hj
    rw [ha]
    exact ⟨hclears j hj h1, h2⟩
  refine ⟨x.arm tr.length w r, ⟨?_, ?_⟩, tr.length, ⟨p, at_end tr _⟩, ?_, ?_⟩
  · intro k hk
    rcases startAt_snoc hk with hk | ⟨rfl, -⟩
    · exact ((hx.allows k hk).arm (hne k hk) w r).snoc _
    · exact hnew
  · intro j k hj hk hjk
    rcases startAt_snoc hk with hk | ⟨rfl, -⟩
    · have hj' : StartAt tr j := by
        rcases startAt_snoc hj with hj | ⟨rfl, -⟩
        · exact hj
        · have := hk.lt
          omega
      obtain ⟨h1, h2⟩ := hx.clears j k hj' hk hjk
      rw [(arm_other x (hne k hk) w r).1]
      exact ⟨hclears j hj' h1, h2⟩
    · rcases startAt_snoc hj with hj | ⟨rfl, -⟩
      · exact hold j hj
      · omega
  · intro j hj hjk
    rcases startAt_snoc hj with hj | ⟨rfl, -⟩
    · exact hold j hj
    · exact absurd rfl hjk
  · intro hclr
    rw [hb]
    obtain ⟨c, hc, hrc⟩ := hc hclr
    exact ⟨c, at_snoc hc _, hrc⟩

/-- The motion that moves or waits is the last one. -/
theorem last_start {k : Nat} (hk : StartAt tr k) (hx : x.Matches tr)
    (hs : ∀ j, StartAt tr j → j ≠ k → x.Clears tr j ∧ x.acked j < x.allow k) :
    ∀ j, StartAt tr j → j ≤ k := by
  intro j hj
  by_cases hjk : j = k
  · omega
  · obtain ⟨h1, h2⟩ := hs j hj hjk
    have h3 := h1.order
    have h4 := (hx.allows k hk).order
    omega

/-- The robot reads CMD_CLR_READY: the last motion is acknowledged. -/
theorem rests_acked (hx : x.Matches tr) (h : Moves x tr m) (hw : m.cmd1 = readyClearCmd) :
    ∃ y : Exchange, y.Matches (tr ++ [.read nWcmd1Addr readyClearCmd]) ∧
      Rests y (tr ++ [.read nWcmd1Addr readyClearCmd]) m := by
  obtain ⟨k, hk, hs, hc⟩ := h
  obtain ⟨c, hat, hlt⟩ := hc hw
  obtain ⟨ha, hb⟩ := ack_self x k c tr.length
  have hlast := last_start hk hx hs
  have hnew : (x.ack k c tr.length).Clears (tr ++ [.read nWcmd1Addr readyClearCmd]) k := by
    refine ⟨?_, ?_, ?_⟩
    · rw [ha]
      exact at_snoc hat _
    · rw [hb]
      exact at_end tr _
    · rw [ha, hb]
      exact ⟨hlt, lt_of_at hat, hk.lt⟩
  refine ⟨x.ack k c tr.length, ⟨?_, ?_⟩, ?_, ?_⟩
  · intro j hj
    exact ((hx.allows j (startAt_plain rfl hj)).ack k c tr.length).snoc _
  · intro i j hi hj hij
    have hi' := startAt_plain rfl hi
    have hj' := startAt_plain rfl hj
    have hik : i ≠ k := by
      have := hlast j hj'
      omega
    obtain ⟨h1, h2⟩ := hx.clears i j hi' hj' hij
    rw [(ack_other x hik c tr.length).2]
    exact ⟨(h1.ack hik c tr.length).snoc _, h2⟩
  · intro j hj
    have hj' := startAt_plain rfl hj
    rw [List.length_append, List.length_singleton]
    by_cases hjk : j = k
    · subst hjk
      rw [hb]
      exact ⟨hnew, by omega⟩
    · obtain ⟨h1, h2⟩ := hs j hj' hjk
      have h3 := (hx.allows k hk).order
      have h4 := hk.lt
      rw [(ack_other x hjk c tr.length).2]
      exact ⟨(h1.ack hjk c tr.length).snoc _, by omega⟩
  · intro h1
    rw [hw] at h1
    exact absurd h1 clrReady_ne_allow1

theorem pending_robot {p p' : Phase} (hx : x.Matches tr) (h : Pending x tr m p)
    (hs : Phase.Step m p e p' m') :
    ∃ y : Exchange, y.Matches (tr ++ [e]) ∧ Pending y (tr ++ [e]) m' p' := by
  have hcmd1 : ∀ v, m'.cmd1 = v → m.cmd1 = v ∨ e = .write .ADDR_CMD_1 v := by
    intro v hv
    exact Or.inl (hs.words.1.symm.trans hv)
  have hsame : e.start? = none → Pending x tr m p' →
      ∃ y : Exchange, y.Matches (tr ++ [e]) ∧ Pending y (tr ++ [e]) m' p' := by
    intro he hp
    exact ⟨x, hx.snoc he, pending_snoc hx hp ⟨he, hcmd1⟩⟩
  cases hs
  case quiet hq => exact hsame hq.plain.1 h
  case allowed hw =>
    rw [hw]
    exact ⟨x, hx.snoc rfl, holds_allowed h hw⟩
  case notSecond => exact hsame rfl (Holds.rests h)
  case start p _ => exact moves_start hx h p
  case unknown => exact hsame rfl trivial
  case exitAsked => exact hsame rfl trivial
  case acked hw =>
    obtain ⟨y, hy, hr⟩ := rests_acked hx h hw
    rw [hw]
    exact ⟨y, hy, hr⟩
  all_goals exact hsame rfl h

end

theorem matches_run {s t : Plant} {tr : List Event} (hmain : s.robot.line = .main)
    (hcmd1 : s.mem.cmd1 ≠ allowMoveCmd1) (h : Run plant anyPc s tr t) :
    ∃ x : Exchange, x.Matches tr ∧ Pending x tr t.mem t.robot.phase := by
  apply plant_invariant (fun tr m p => ∃ x : Exchange, x.Matches tr ∧ Pending x tr m p) h
  · have hnone : ∀ k, ¬ StartAt [] k := by
      rintro k ⟨p, hp⟩
      simp at hp
    refine ⟨⟨id, id, id, id⟩, ⟨fun k hk => absurd hk (hnone k), ?_⟩, ?_⟩
    · exact fun j _ hj => absurd hj (hnone j)
    · simp only [Robot.phase, hmain]
      exact ⟨fun j hj => absurd hj (hnone j), fun hw => absurd hw hcmd1⟩
  · rintro tr m r a w ⟨x, hx, hp⟩ -
    refine ⟨x, hx.snoc rfl, pending_snoc hx hp ⟨rfl, ?_⟩⟩
    intro v hv
    cases a
    case ADDR_CMD_1 =>
      obtain rfl : w = v := hv
      exact Or.inr rfl
    all_goals exact Or.inl hv
  · rintro tr m r - hok
    exact absurd rfl hok
  · rintro tr m r e p' m' ⟨x, hx, hp⟩ - hs
    exact pending_robot hx hp hs

/-! ## The law of a run -/

theorem countP_start (tr : List Event) :
    tr.countP (fun e => e.start?.isSome) = (starts tr).length := by
  unfold starts
  induction tr with
  | nil => rfl
  | cons e tr ih =>
    rw [List.countP_cons, ih, List.filterMap_cons]
    cases he : e.start? <;> simp

/-- Against any PC: the motions have writes of ALLOW_MOVE_1 of their own, in their order and
before their starts. Between two motions the robot reads a CMD_CLR_READY that was written after
its read of the first ALLOW_MOVE_1 and before the write of the second. So there are no more
motions than writes of ALLOW_MOVE_1, and at most one more than writes of CMD_CLR_READY. -/
theorem each_motion_has_its_own_allow_and_clear (s t : Plant) (tr : List Event)
    (hmain : s.robot.line = .main) (hcmd1 : s.mem.cmd1 ≠ CMD.word .CMD_ALLOW_MOVE_1)
    (h : Run plant anyPc s tr t) :
    (∃ x : Exchange, x.Matches tr ∧
      ∀ j k, StartAt tr j → StartAt tr k → j < k → x.allow j < x.allow k) ∧
    (starts tr).length ≤ tr.count (.write .ADDR_CMD_1 (CMD.word .CMD_ALLOW_MOVE_1)) ∧
    (starts tr).length ≤ 1 + tr.count (.write .ADDR_CMD_1 (CMD.word .CMD_CLR_READY)) := by
  obtain ⟨x, hx, -⟩ := matches_run hmain hcmd1 h
  have hallow : ∀ j k, StartAt tr j → StartAt tr k → j < k → x.allow j < x.allow k := by
    intro j k hj hk hjk
    obtain ⟨h1, h2⟩ := hx.clears j k hj hk hjk
    have h3 := (hx.allows j hj).order
    have h4 := h1.order
    omega
  have hstart : ∀ k ∈ positions (fun e => e.start?.isSome) tr, StartAt tr k := by
    intro k hk
    obtain ⟨e, he, hs⟩ := mem_positions.mp hk
    cases e
    case start p => exact ⟨p, he⟩
    all_goals cases hs
  refine ⟨⟨x, hx, hallow⟩, ?_, ?_⟩
  · rw [← countP_start]
    apply countP_le_of_injection x.allow
    · intro k hk
      exact mem_positions.mpr ⟨_, (hx.allows k (hstart k hk)).write, by simp⟩
    · intro j hj k hk hjk
      exact hallow j k (hstart j hj) (hstart k hk) hjk
  · rw [← countP_start]
    apply countP_le_of_injection_but_last x.clear
    · intro j hj k hk hjk
      have hc := (hx.clears j k (hstart j hj) (hstart k hk) hjk).1
      exact mem_positions.mpr ⟨_, hc.write, by simp⟩
    · intro i hi j hj k hk hij hjk
      obtain ⟨h1, h2⟩ := hx.clears i j (hstart i hi) (hstart j hj) hij
      have h3 := (hx.clears j k (hstart j hj) (hstart k hk) hjk).1.order
      have h4 := (hx.allows j (hstart j hj)).order
      have h5 := h1.order
      omega

/-- Two motions in a row. The robot reads ALLOW_MOVE_1, and then the PC writes CMD_CLR_READY,
before the first motion starts. The robot takes it for the acknowledgement of that motion. -/
def clearBeforeStart : List PlantInput :=
  armMove ⟨13, 29, NORMAL_MOVE⟩ ++ List.replicate 6 PlantInput.robot ++
    .write .ADDR_CMD_1 (CMD.word .CMD_CLR_READY) :: List.replicate 30 PlantInput.robot ++
    .write .ADDR_CMD_1 (CMD.word .CMD_ALLOW_MOVE_1) :: List.replicate 12 PlantInput.robot

/-- The law at two motions. -/
theorem two_motions_have_two_allow_writes :
    ∃ tr t, Run plant anyPc ⟨.zero, .atMain⟩ tr t ∧ (starts tr).length = 2 ∧
      2 ≤ tr.count (.write .ADDR_CMD_1 (CMD.word .CMD_ALLOW_MOVE_1)) := by
  have hrun : ∃ tr t, Run plant anyPc ⟨.zero, .atMain⟩ tr t ∧
      decide ((starts tr).length = 2) = true :=
    exists_run_of_execWith (fun tr _ => _) clearBeforeStart (by decide +kernel)
  obtain ⟨tr, t, h, hP⟩ := hrun
  have hs := of_decide_eq_true hP
  have hle := (each_motion_has_its_own_allow_and_clear ⟨.zero, .atMain⟩ t tr rfl (by decide) h).2.1
  exact ⟨tr, t, h, hs, by omega⟩

/-- Between the two starts there is no write of CMD_CLR_READY at all. -/
theorem the_clear_may_come_before_the_start :
    ∃ tr t j k, Run plant anyPc ⟨.zero, .atMain⟩ tr t ∧ j < k ∧ StartAt tr j ∧ StartAt tr k ∧
      ∀ c < k, j < c → ¬ StartAt tr c ∧
        tr[c]? ≠ some (.write .ADDR_CMD_1 (CMD.word .CMD_CLR_READY)) := by
  have hrun : ∃ tr t, Run plant anyPc ⟨.zero, .atMain⟩ tr t ∧
      decide (tr[17]? = some (.start (MOVE.words ⟨13, 29, NORMAL_MOVE⟩)) ∧
        tr[54]? = some (.start (MOVE.words ⟨13, 29, NORMAL_MOVE⟩)) ∧
        ∀ c < 54, 17 < c → (tr[c]?.bind Event.start?) = none ∧
          tr[c]? ≠ some (.write .ADDR_CMD_1 (CMD.word .CMD_CLR_READY))) = true :=
    exists_run_of_execWith (fun tr _ => _) clearBeforeStart (by decide +kernel)
  obtain ⟨tr, t, h, hP⟩ := hrun
  obtain ⟨h1, h2, hno⟩ := of_decide_eq_true hP
  refine ⟨tr, t, 17, 54, h, by omega, ⟨_, h1⟩, ⟨_, h2⟩, ?_⟩
  intro c hc hj
  obtain ⟨hstart, hclr⟩ := hno c hc hj
  refine ⟨?_, hclr⟩
  rintro ⟨p, hp⟩
  rw [hp] at hstart
  cases hstart

end robotchess
