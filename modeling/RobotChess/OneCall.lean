-- One call of `robot_sendMove`, from its first write to its return, with the
-- robot taking its steps in between. The call waits for the motion that it has
-- armed when the robot starts from its idle cycle, whatever operations fail.
import RobotChess.Cell

open runs

namespace robotchess

/-! ## The ready word -/

/-- The ready word is `CMD_READY` exactly while the robot waits for the acknowledgement. -/
def ReadyInv (m : Mem) (p : Phase) : Prop :=
  m.ready = moveReady ↔ p = .waiting ∨ p = .acked

instance (m : Mem) (p : Phase) : Decidable (ReadyInv m p) :=
  inferInstanceAs (Decidable (_ ↔ _))

theorem unready_ne (m : Mem) (h : m.ready = moveReady) : (M_Out m false).ready ≠ moveReady := by
  simp only [M_Out, h]
  decide

theorem readyInv_robot {m m' : Mem} {p p' : Phase} {e : Event} (hI : ReadyInv m p)
    (h : Phase.Step m p e p' m') : ReadyInv m' p' := by
  cases h
  case done => simp [ReadyInv, M_Out16]
  case unready =>
    have := unready_ne m (hI.mpr (Or.inr rfl))
    simpa [ReadyInv] using this
  all_goals simpa [ReadyInv] using hI

theorem readyInv_pc {m : Mem} {p : Phase} (e : Event) (hI : ReadyInv m p) :
    ReadyInv (m.after e) p := by
  cases e <;> simpa [ReadyInv, Mem.after] using hI

/-! ## How far the robot is with the motion of the call -/

/-- The robot has not started the motion, and what it has latched are words of `w`. -/
def Phase.Before (w : Params) : Phase → Prop
  | .waiting | .acked | .idle | .checked | .holding | .armed | .off => True
  | .typed t => t = w.type
  | .sourced t s => t = w.type ∧ s = w.source
  | .latched p => p = w
  | .boot | .moving => False

/-- The robot has read both ALLOW words in this cycle, and reads the parameters. -/
def Phase.Latching : Phase → Prop
  | .armed | .typed _ | .sourced _ _ | .latched _ => True
  | _ => False

/-- The robot is past the motion, in its idle cycle again or on the way to it. -/
def Phase.Past : Phase → Prop
  | .acked | .idle | .checked | .off => True
  | _ => False

/-- The four stages of the motion with words `w`, in the events since the call. -/
inductive Progress (w : Params) (tr : List Event) (m : Mem) (p : Phase) : Prop
  | before : starts tr = [] → finished tr = 0 → p.Before w → (p.Latching → m.params = w) →
      Progress w tr m p
  | moving : starts tr = [w] → finished tr = 0 → p = .moving → Progress w tr m p
  | waiting : starts tr = [w] → finished tr = 1 → p = .waiting → Progress w tr m p
  | past : starts tr = [w] → finished tr = 1 → p.Past → m.cmd1 ≠ allowMoveCmd1 →
      Progress w tr m p

/-- A motion that has been carried out stays the only one. -/
theorem Progress.still {w : Params} {tr : List Event} {m : Mem} {p : Phase} {e : Event}
    (h : Progress w (tr ++ [e]) m p) (hs : starts tr = [w]) (hf : finished tr = 1) :
    starts (tr ++ [e]) = [w] ∧ finished (tr ++ [e]) = 1 := by
  cases h with
  | before hs' _ _ _ => simp [hs] at hs'
  | moving _ hf' _ => simp [hf] at hf'
  | waiting hs' hf' _ => exact ⟨hs', hf'⟩
  | past hs' hf' _ _ => exact ⟨hs', hf'⟩

theorem before_robot {w : Params} {m m' : Mem} {p p' : Phase} {e : Event} (he : e.Plain)
    (hb : p.Before w) (hl : p.Latching → m.params = w)
    (hsafe : m.cmd2 = allowMoveCmd2 → m.params = w) (h : Phase.Step m p e p' m') :
    p'.Before w ∧ (p'.Latching → m'.params = w) := by
  rw [h.words.2.2.1]
  cases h
  case quiet => exact ⟨hb, hl⟩
  case second hw => exact ⟨trivial, fun _ => hsafe hw⟩
  case type => exact ⟨by rw [← hl trivial]; rfl, hl⟩
  case source => exact ⟨⟨hb, by rw [← hl trivial]; rfl⟩, hl⟩
  case dest =>
    obtain ⟨rfl, rfl⟩ := hb
    exact ⟨by rw [← hl trivial]; rfl, hl⟩
  case start => exact absurd he.1 (by simp [Event.start?])
  case done => exact hb.elim
  all_goals exact ⟨trivial, fun hf => hf.elim⟩

theorem past_robot {m m' : Mem} {p p' : Phase} {e : Event} (hp : p.Past)
    (hc : m.cmd1 ≠ allowMoveCmd1) (h : Phase.Step m p e p' m') : p'.Past ∧ e.Plain := by
  cases h
  case quiet hq => exact ⟨hp, hq.plain⟩
  case allowed hw => exact absurd hw hc
  all_goals first
    | exact hp.elim
    | exact ⟨trivial, rfl, rfl, by simp⟩

theorem progress_robot {w : Params} {tr : List Event} {m m' : Mem} {p p' : Phase} {e : Event}
    (hI : Progress w tr m p) (hsafe : m.cmd2 = allowMoveCmd2 → m.params = w)
    (h : Phase.Step m p e p' m') : Progress w (tr ++ [e]) m' p' := by
  rcases h.plain with ⟨q, rfl, rfl, rfl, hq, rfl⟩ | ⟨rfl, rfl, rfl, rfl⟩ | he
  · cases hI with
    | before hs hf hb _ =>
      obtain rfl : q = w := hb
      exact .moving (by simp [hs]) (by simp [hf]) rfl
    | moving _ _ hp => cases hp
    | waiting _ _ hp => cases hp
    | past _ _ hp _ => exact hp.elim
  · cases hI with
    | before _ _ hb _ => exact hb.elim
    | moving hs hf _ => exact .waiting (by simp [hs]) (by simp [hf]) rfl
    | waiting _ _ hp => cases hp
    | past _ _ hp _ => exact hp.elim
  · obtain ⟨hs', hf', -, -⟩ := he.snoc tr
    cases hI with
    | before hs hf hb hl =>
      obtain ⟨hb', hl'⟩ := before_robot he hb hl hsafe h
      exact .before (hs'.trans hs) (hf'.trans hf) hb' hl'
    | moving hs hf hp =>
      subst hp
      cases h
      case quiet => exact .moving (hs'.trans hs) (hf'.trans hf) rfl
      case done => exact absurd rfl he.2.2
    | waiting hs hf hp =>
      subst hp
      cases h
      case acked hw =>
        exact .past (hs'.trans hs) (hf'.trans hf) trivial (by rw [hw]; simp)
      all_goals exact .waiting (hs'.trans hs) (hf'.trans hf) rfl
    | past hs hf hp hc =>
      refine .past (hs'.trans hs) (hf'.trans hf) (past_robot hp hc h).1 ?_
      rwa [h.words.1]

theorem progress_pc {w : Params} {tr : List Event} {m m' : Mem} {p : Phase} {e : Event}
    (hI : Progress w tr m p) (he : e.Plain) (hp : p.Latching → m'.params = m.params)
    (hc : starts tr = [w] → m'.cmd1 = allowMoveCmd1 → m.cmd1 = allowMoveCmd1) :
    Progress w (tr ++ [e]) m' p := by
  obtain ⟨hs', hf', -, -⟩ := he.snoc tr
  cases hI with
  | before hs hf hb hl =>
    exact .before (hs'.trans hs) (hf'.trans hf) hb (fun h => (hp h).trans (hl h))
  | moving hs hf h => exact .moving (hs'.trans hs) (hf'.trans hf) h
  | waiting hs hf h => exact .waiting (hs'.trans hs) (hf'.trans hf) h
  | past hs hf h h1 => exact .past (hs'.trans hs) (hf'.trans hf) h (fun h2 => h1 (hc hs h2))

/-! ## The invariant of the call -/

/-- What holds at every point of the call and after it. -/
structure Common (w : Params) (tr : List Event) (m : Mem) (p : Phase) : Prop where
  progress : Progress w tr m p
  ready : ReadyInv m p
  safe : m.cmd2 = allowMoveCmd2 → m.params = w

/-- What holds before operation `k` of the call. -/
structure During (w : Params) (k : Nat) (tr : List Event) (m : Mem) (p : Phase) : Prop
    extends Common w tr m p where
  early : k ≤ 4 → starts tr = [] ∧ m.cmd2 ≠ allowMoveCmd2 ∧ ¬ p.Latching
  source : 2 ≤ k → m.source = w.source
  dest : 3 ≤ k → m.dest = w.dest
  type : 4 ≤ k → m.type = w.type
  left : 1 ≤ k → starts tr = [] → p ≠ .waiting
  seen : 6 ≤ k → starts tr = [w] ∧ finished tr = 1

theorem During.written {w : Params} {k : Nat} {tr : List Event} {m : Mem} {p : Phase}
    (h : During w k tr m p) : Written w k m :=
  ⟨h.source, h.dest, h.type⟩

/-- What holds after the call has returned, or when it is about to return false. -/
structure Over (w : Params) (tr : List Event) (m : Mem) (p : Phase) : Prop
    extends Common w tr m p where
  left : starts tr = [] → p ≠ .waiting

theorem common_robot {w : Params} {tr : List Event} {m m' : Mem} {p p' : Phase} {e : Event}
    (hI : Common w tr m p) (h : Phase.Step m p e p' m') :
    Common w (tr ++ [e]) m' p' := by
  refine ⟨progress_robot hI.progress hI.safe h, readyInv_robot hI.ready h, ?_⟩
  rw [h.words.2.1, h.words.2.2.1]
  exact hI.safe

/-- A robot that latches nothing and finds no ALLOW_MOVE_2 starts no motion. -/
theorem quiet_robot (tr : List Event) {m m' : Mem} {p p' : Phase} {e : Event}
    (h2 : m.cmd2 ≠ allowMoveCmd2) (hl : ¬ p.Latching) (h : Phase.Step m p e p' m') :
    starts (tr ++ [e]) = starts tr ∧ ¬ p'.Latching := by
  rcases h.plain with ⟨q, rfl, -, -, -, -⟩ | ⟨rfl, rfl, rfl, rfl⟩ | he
  · exact absurd trivial hl
  · exact ⟨by simp, id⟩
  · refine ⟨(he.snoc tr).1, ?_⟩
    cases h
    case quiet => exact hl
    case second hw => exact absurd hw h2
    case type => exact absurd trivial hl
    case source => exact absurd trivial hl
    case dest => exact absurd trivial hl
    all_goals exact id

theorem left_robot {w : Params} {tr : List Event} {m m' : Mem} {p p' : Phase} {e : Event}
    (hI : Progress w tr m p) (hl : starts tr = [] → p ≠ .waiting) (h : Phase.Step m p e p' m') :
    starts (tr ++ [e]) = [] → p' ≠ .waiting := by
  intro hs hp
  have hs' : starts tr = [] := by
    rw [starts_append] at hs
    exact (List.append_eq_nil_iff.mp hs).1
  subst hp
  cases h
  case quiet => exact hl hs' rfl
  case notAcked => exact hl hs' rfl
  case done =>
    cases hI with
    | before _ _ hb _ => exact hb
    | moving hm _ _ => simp [hs'] at hm
    | waiting _ _ hp => cases hp
    | past _ _ hp _ => exact hp

theorem during_robot {w : Params} {k : Nat} {tr : List Event} {m m' : Mem} {p p' : Phase}
    {e : Event} (hI : During w k tr m p) (h : Phase.Step m p e p' m') :
    During w k (tr ++ [e]) m' p' := by
  have hcom := common_robot hI.toCommon h
  have hwritten := hI.written.of_params h.words.2.2.1
  refine ⟨hcom, ?_, hwritten.source, hwritten.dest, hwritten.type, ?_, ?_⟩
  · intro hk4
    obtain ⟨hs, h2, hl⟩ := hI.early hk4
    obtain ⟨hs', hl'⟩ := quiet_robot tr h2 hl h
    exact ⟨hs'.trans hs, by rwa [h.words.2.1], hl'⟩
  · exact fun h1 => left_robot hI.progress (hI.left h1) h
  · intro h6
    obtain ⟨hs, hf⟩ := hI.seen h6
    exact hcom.progress.still hs hf

theorem over_robot {w : Params} {tr : List Event} {m m' : Mem} {p p' : Phase} {e : Event}
    (hI : Over w tr m p) (h : Phase.Step m p e p' m') :
    Over w (tr ++ [e]) m' p' :=
  ⟨common_robot hI.toCommon h, left_robot hI.progress hI.left h⟩

/-! ## The steps of the PC -/

theorem common_pc {w : Params} {tr : List Event} {m : Mem} {p : Phase} {e : Event}
    (hI : Common w tr m p) (he : e.Plain) (hp : p.Latching → (m.after e).params = m.params)
    (hc : starts tr = [w] → (m.after e).cmd1 = allowMoveCmd1 → m.cmd1 = allowMoveCmd1)
    (hs : (m.after e).cmd2 = allowMoveCmd2 → (m.after e).params = w) :
    Common w (tr ++ [e]) (m.after e) p :=
  ⟨progress_pc hI.progress he hp hc, readyInv_pc e hI.ready, hs⟩

/-- A parameter word changes neither ALLOW word. -/
theorem word_allow {q : Params} {k : Nat} {a : MEMADDR} {w : REG16}
    (h : wordAt q k = some (a, w)) (o : Outcome) (m : Mem) :
    (m.after (writeEvent o a w)).cmd1 = m.cmd1 ∧ (m.after (writeEvent o a w)).cmd2 = m.cmd2 := by
  obtain ⟨h1, h2, -⟩ := word_write h m
  exact after_write (fun m' => m'.cmd1 = m.cmd1 ∧ m'.cmd2 = m.cmd2) o ⟨h1, h2⟩ ⟨rfl, rfl⟩

/-- A parameter word that is written in the early part of the call. -/
theorem common_word {w : Params} {k : Nat} {tr : List Event} {m : Mem} {p : Phase}
    {a : MEMADDR} {v : REG16} (hI : During w k tr m p) (hv : wordAt w k = some (a, v))
    (o : Outcome) : Common w (tr ++ [writeEvent o a v]) (m.after (writeEvent o a v)) p := by
  have hk := word_bounds hv
  obtain ⟨hs, h2, hl⟩ := hI.early (by omega)
  obtain ⟨hc1, hc2⟩ := word_allow hv o m
  refine common_pc hI.toCommon (writeEvent_plain o a v) (fun h => absurd h hl) ?_ ?_
  · intro hw
    simp [hs] at hw
  · intro h
    exact absurd (hc2 ▸ h) h2

theorem during_word {w : Params} {k : Nat} {tr : List Event} {m : Mem} {p : Phase}
    {a : MEMADDR} {v : REG16} (hI : During w k tr m p) (hv : wordAt w k = some (a, v)) :
    During w (k + 1) (tr ++ [.write a v]) (m.write a v) p := by
  have hk := word_bounds hv
  have hcom := common_word hI hv .ok
  have hwritten := written_word hI.written hv
  obtain ⟨hs', -, -, -⟩ := (writeEvent_plain .ok a v).snoc tr
  obtain ⟨hs, h2, hl⟩ := hI.early (by omega)
  refine ⟨hcom, fun _ => ⟨hs'.trans hs, ?_, hl⟩, hwritten.source, hwritten.dest, hwritten.type,
    fun _ _ => hI.left (by omega) hs, fun h => by omega⟩
  rw [(word_write hv m).2.1]
  exact h2

/-- An event of the PC that leaves the parameter words as they are. -/
theorem during_same {w : Params} {k : Nat} {tr : List Event} {m : Mem} {p : Phase} {e : Event}
    (hI : During w k tr m p) (he : e.Plain) (h5 : 4 ≤ k) (hp : (m.after e).params = m.params)
    (hc : starts tr = [w] → (m.after e).cmd1 = allowMoveCmd1 → m.cmd1 = allowMoveCmd1)
    (hseen : 5 ≤ k → starts tr = [w] ∧ finished tr = 1) :
    During w (k + 1) (tr ++ [e]) (m.after e) p := by
  have hw := hI.written.params h5
  have hcom := common_pc hI.toCommon he (fun _ => hp) hc (fun _ => hp.trans hw)
  have hwritten : Written w (k + 1) (m.after e) := (hI.written.later h5).of_params hp
  obtain ⟨hs', hf', -, -⟩ := he.snoc tr
  refine ⟨hcom, fun h => by omega, hwritten.source, hwritten.dest, hwritten.type, ?_, ?_⟩
  · intro _ hs
    exact hI.left (by omega) (hs' ▸ hs)
  · intro h6
    rw [hs', hf']
    exact hseen (by omega)

/-- A write of the PC that leaves the parameter words as they are, and does not arm the robot. -/
theorem during_write {w : Params} {k : Nat} {tr : List Event} {m : Mem} {p : Phase}
    {a : MEMADDR} {v : REG16} (hI : During w k tr m p) (o : Outcome) (h4 : 4 ≤ k)
    (hp : (m.write a v).params = m.params)
    (hc : (m.write a v).cmd1 = allowMoveCmd1 → m.cmd1 = allowMoveCmd1)
    (hseen : 5 ≤ k → starts tr = [w] ∧ finished tr = 1) :
    During w (k + 1) (tr ++ [writeEvent o a v]) (m.after (writeEvent o a v)) p := by
  have hp' := after_write (fun m' => m'.params = m.params) o hp rfl
  have hc' := after_write (fun m' => m'.cmd1 = allowMoveCmd1 → m.cmd1 = allowMoveCmd1) o hc id
  exact during_same hI (writeEvent_plain o a v) h4 hp' (fun _ => hc') hseen

theorem over_of_during {w : Params} {k : Nat} {tr : List Event} {m : Mem} {p : Phase} {e : Event}
    (hI : During w k tr m p) (he : e.Plain) (h1 : 1 ≤ k) (hm : m.after e = m) :
    Over w (tr ++ [e]) (m.after e) p := by
  have hcom := common_pc hI.toCommon he (fun _ => by rw [hm]) (fun _ => by rw [hm]; exact id)
    (by rw [hm]; exact hI.safe)
  refine ⟨hcom, fun hs => ?_⟩
  rw [(he.snoc tr).1] at hs
  exact hI.left h1 hs

/-- When the poll gives `CMD_READY`, the robot has carried out the motion of this call. -/
theorem seen_of_ready {w : Params} {tr : List Event} {m : Mem} {p : Phase} (hI : Common w tr m p)
    (hr : m.ready = moveReady) (hw : starts tr = [] → p ≠ .waiting ∧ p ≠ .acked) :
    starts tr = [w] ∧ finished tr = 1 := by
  have hp := hI.ready.mp hr
  cases hI.progress with
  | before hs _ _ _ =>
    obtain ⟨h1, h2⟩ := hw hs
    rcases hp with hp | hp
    · exact absurd hp h1
    · exact absurd hp h2
  | moving _ _ hm => rcases hp with hp | hp <;> simp [hm] at hp
  | waiting hs hf _ => exact ⟨hs, hf⟩
  | past hs hf _ _ => exact ⟨hs, hf⟩

/-- The invariant of the call, at any point of the driver from its first operation on. -/
def CallInv (mv : MOVE) (tr : List Event) (m : Mem) (p : Phase) : Driver → Prop
  | .busy c k => c = .move mv ∧ During mv.words k tr m p
  | .failing c => c = .move mv ∧ Over mv.words tr m p
  | .idle => Over mv.words tr m p

/-- Each step of the PC keeps the invariant, when it does not write ALLOW_MOVE_1 under a robot
that waits for the last acknowledgement, and does not poll before such a robot has taken its
ready signal back. -/
theorem callInv_pc {mv : MOVE} {tr : List Event} {m : Mem} {p : Phase} {d d' : Driver}
    {o : Outcome} {e : Event} (hI : CallInv mv tr m p d) (h : Driver.Step o m.ready d e d')
    (ha : d = .busy (.move mv) 0 → p ≠ .waiting)
    (hb : d = .busy (.move mv) 5 → starts tr = [] → p ≠ .acked) :
    CallInv mv (tr ++ [e]) (m.after e) p d' := by
  have he := h.plain
  cases h
  case connected => cases hI.1
  case refused => cases hI.1
  case zero => cases hI.1
  case cmd => cases hI.1
  case cmdFailed => cases hI.1
  case invalid => cases hI.1
  case allow1 =>
    obtain ⟨hc, hI⟩ := hI
    cases hc
    obtain ⟨hs, h2, hl⟩ := hI.early (by omega)
    obtain ⟨hs', -, -, -⟩ := he.snoc tr
    have h2' : (m.after (writeEvent o .ADDR_CMD_1 allowMoveCmd1)).cmd2 = m.cmd2 :=
      after_write (fun m' => m'.cmd2 = m.cmd2) o rfl rfl
    refine ⟨rfl, common_pc hI.toCommon he (fun h => absurd h hl) (fun h => by simp [hs] at h)
      (fun h => absurd (h2' ▸ h) h2), fun _ => ⟨hs'.trans hs, by rwa [h2'], hl⟩,
      fun h => by omega, fun h => by omega, fun h => by omega, fun _ _ => ha rfl,
      fun h => by omega⟩
  case word hv ho =>
    obtain ⟨hc, hI⟩ := hI
    cases hc
    exact ⟨rfl, during_word hI hv⟩
  case wordFailed k a w hv ho =>
    obtain ⟨hc, hI⟩ := hI
    cases hc
    refine ⟨rfl, common_word hI hv o, fun hs => ?_⟩
    rw [(he.snoc tr).1] at hs
    exact hI.left (word_bounds hv).1 hs
  case allow2 =>
    obtain ⟨hc, hI⟩ := hI
    cases hc
    exact ⟨rfl, during_write hI o (by omega) rfl id (fun h => by omega)⟩
  case answered ho hr =>
    obtain ⟨hc, hI⟩ := hI
    cases hc
    have hseen := seen_of_ready hI.toCommon hr (fun hs => ⟨hI.left (by omega) hs, hb rfl hs⟩)
    exact ⟨rfl, during_same hI he (by omega) rfl (fun _ => id) (fun _ => hseen)⟩
  case notYet ho hr =>
    obtain ⟨hc, hI⟩ := hI
    cases hc
    obtain ⟨hs', -, -, -⟩ := he.snoc tr
    have hw := hI.written.params (by omega)
    exact ⟨rfl, common_pc hI.toCommon he (fun _ => rfl) (fun _ => id) (fun _ => hw),
      fun h => by omega, hI.source, hI.dest, hI.type,
      fun _ hs => hI.left (by omega) (hs' ▸ hs), fun h => by omega⟩
  case noAnswer ho =>
    obtain ⟨hc, hI⟩ := hI
    cases hc
    exact ⟨rfl, over_of_during hI he (by omega) rfl⟩
  case clear1 c k ht =>
    obtain ⟨rfl, hI⟩ := hI
    obtain rfl := tailAt_move.mp ht
    exact ⟨rfl, during_write hI o (by omega) rfl (zero_sets_nothing m _).allow1
      (fun _ => hI.seen (by omega))⟩
  case clear2 c k ht =>
    obtain ⟨rfl, hI⟩ := hI
    obtain rfl := tailAt_move.mp ht
    exact ⟨rfl, during_write hI o (by omega) rfl id (fun _ => hI.seen (by omega))⟩
  case clrReady c k ht =>
    obtain ⟨rfl, hI⟩ := hI
    obtain rfl := tailAt_move.mp ht
    exact ⟨rfl, during_write hI o (by omega) rfl (clrReady_sets_nothing m _).allow1
      (fun _ => hI.seen (by omega))⟩
  case failed =>
    obtain ⟨hs', -, -, -⟩ := he.snoc tr
    obtain ⟨-, hI⟩ := hI
    exact ⟨common_pc hI.toCommon he (fun _ => rfl) (fun _ => id) hI.safe,
      fun hs => hI.left (hs' ▸ hs)⟩
  case returned c k hk =>
    obtain ⟨rfl, hI⟩ := hI
    have h9 : 9 ≤ k := by simpa [Call.body, robot_sendMove_eq] using hk
    exact over_of_during hI he (by omega) rfl

theorem CallInv.common {mv : MOVE} {tr : List Event} {m : Mem} {p : Phase} {d : Driver}
    (hI : CallInv mv tr m p d) : Common mv.words tr m p := by
  cases d with
  | idle => exact hI.toCommon
  | failing c => exact hI.2.toCommon
  | busy c k => exact hI.2.toCommon

theorem callInv_robot {mv : MOVE} {tr : List Event} {m m' : Mem} {p p' : Phase} {d : Driver}
    {e : Event} (hI : CallInv mv tr m p d) (h : Phase.Step m p e p' m') :
    CallInv mv (tr ++ [e]) m' p' d := by
  cases d with
  | idle => exact over_robot hI h
  | failing c => exact ⟨hI.1, over_robot hI.2 h⟩
  | busy c k => exact ⟨hI.1, during_robot hI.2 h⟩

/-! ## The law of one call -/

/-- The robot is in the cycle of `*main` and `*readsecond`, and has not read ALLOW_MOVE_2 as
cmd2 in this cycle. -/
def InCycle (r : Robot) : Prop :=
  match r.line with
  | .main | .mainDly | .readExit | .testExit | .readCmd1 | .testCmd1 | .readsecond => True
  | .testCmd2 => r.nWcmd2 ≠ allowMoveCmd2
  | _ => False

/-- A state in which nothing is armed and the robot is idle. -/
structure Quiescent (s : Cell) : Prop where
  driver : s.driver = .idle
  cycle : InCycle s.robot
  cmd2 : s.mem.cmd2 ≠ CMD.word .CMD_ALLOW_MOVE_2
  exit : s.mem.exit ≠ CMD.word .CMD_EXIT
  ready : s.mem.ready ≠ CMD.word .CMD_READY

/-- The robot is idle and not armed, and gives no ready signal. It may find a CMD_EXIT. -/
structure Resting (s : Cell) : Prop where
  driver : s.driver = .idle
  cycle : InCycle s.robot
  cmd2 : s.mem.cmd2 ≠ CMD.word .CMD_ALLOW_MOVE_2
  ready : s.mem.ready ≠ CMD.word .CMD_READY

theorem Quiescent.resting {s : Cell} (h : Quiescent s) : Resting s :=
  ⟨h.driver, h.cycle, h.cmd2, h.ready⟩

/-- One call of `robot_sendMove` with this move, and no other call. -/
def oneCall (mv : MOVE) : Guard Cell CellInput Event
  | tr, _, .call c => calls tr = [] ∧ c = .move mv
  | _, _, _ => True

instance (mv : MOVE) (tr : List Event) (s : Cell) (i : CellInput) : Decidable (oneCall mv tr s i) :=
  match i with
  | .call c => inferInstanceAs (Decidable (calls tr = [] ∧ c = .move mv))
  | .pc _ => .isTrue trivial
  | .robot => .isTrue trivial

/-- The phases of the idle cycle. -/
def Phase.Idle : Phase → Prop
  | .idle | .checked | .holding | .off => True
  | _ => False

theorem idle_of_inCycle {r : Robot} (h : InCycle r) : r.phase.Idle := by
  unfold InCycle at h
  unfold Robot.phase
  cases hl : r.line
  all_goals simp only [hl] at h ⊢
  case testExit => split <;> trivial
  case testCmd1 => split <;> trivial
  case testCmd2 =>
    rw [if_neg h]
    trivial
  all_goals trivial

theorem idle_robot (tr : List Event) {m m' : Mem} {p p' : Phase} {e : Event} (hp : p.Idle)
    (h2 : m.cmd2 ≠ allowMoveCmd2) (h : Phase.Step m p e p' m') :
    p'.Idle ∧ starts (tr ++ [e]) = starts tr ∧ finished (tr ++ [e]) = finished tr ∧
      calls (tr ++ [e]) = calls tr ∧ m' = m := by
  have key : p'.Idle ∧ e.Plain ∧ m' = m := by
    cases h
    case quiet hq => exact ⟨hp, hq.plain, rfl⟩
    case second hw => exact absurd hw h2
    all_goals first
      | exact hp.elim
      | exact ⟨trivial, ⟨rfl, rfl, by simp⟩, rfl⟩
  obtain ⟨h1, he, h3⟩ := key
  obtain ⟨hs, hf, hc, -⟩ := he.snoc tr
  exact ⟨h1, hs, hf, hc, h3⟩

/-- The invariant of a run with one call: before the call, and from the call on. -/
inductive OneCall (mv : MOVE) (tr : List Event) (d : Driver) (m : Mem) (p : Phase) : Prop
  | before : d = .idle → calls tr = [] → starts tr = [] → finished tr = 0 → p.Idle →
      m.cmd2 ≠ allowMoveCmd2 → m.ready ≠ moveReady → OneCall mv tr d m p
  | during : calls tr = [.move mv] → CallInv mv tr m p d →
      (starts tr = [] → p ≠ .waiting ∧ p ≠ .acked) → OneCall mv tr d m p

theorem oneCall_call {mv : MOVE} {tr : List Event} {m : Mem} {p : Phase}
    (hI : OneCall mv tr .idle m p) (hc : calls tr = []) :
    OneCall mv (tr ++ [.call (.move mv)]) (.busy (.move mv) 0) m p := by
  cases hI with
  | during hc' _ _ => simp [hc] at hc'
  | before _ _ hs hf hp h2 hr =>
    have hs' : starts (tr ++ [.call (.move mv)]) = [] := by rw [starts_append, hs]; rfl
    have hf' : finished (tr ++ [.call (.move mv)]) = 0 := by rw [finished_append, hf]; rfl
    have hb : p.Before mv.words := by cases p <;> trivial
    have hl : ¬ p.Latching := by cases p <;> first | exact id | exact hp.elim
    have hw : p ≠ .waiting ∧ p ≠ .acked := by constructor <;> rintro rfl <;> exact hp
    have hready : ReadyInv m p :=
      ⟨fun h => absurd h hr, fun h => h.elim (absurd · hw.1) (absurd · hw.2)⟩
    refine .during (by rw [calls_append, hc]; rfl) ⟨rfl, ⟨?_, hready, fun h => absurd h h2⟩, ?_,
      ?_, ?_, ?_, ?_, ?_⟩ (fun _ => hw)
    · exact .before hs' hf' hb (fun h => absurd h hl)
    · exact fun _ => ⟨hs', h2, hl⟩
    all_goals intro h; omega

theorem oneCall_pc {mv : MOVE} {tr : List Event} {m : Mem} {p : Phase} {d d' : Driver}
    {o : Outcome} {e : Event} (hI : OneCall mv tr d m p) (h : Driver.Step o m.ready d e d') :
    OneCall mv (tr ++ [e]) d' (m.after e) p := by
  cases hI with
  | before hd => subst hd; cases h
  | during hc hI hw =>
    obtain ⟨hs', -, hc', -⟩ := h.plain.snoc tr
    have hstart : d = .busy (.move mv) 0 → starts tr = [] := by
      rintro rfl
      exact (hI.2.early (by omega)).1
    refine .during (hc'.trans hc) ?_ (by rwa [hs'])
    exact callInv_pc hI h (fun hd => (hw (hstart hd)).1) (fun _ hs => (hw hs).2)

theorem oneCall_robot {mv : MOVE} {tr : List Event} {m m' : Mem} {p p' : Phase} {d : Driver}
    {e : Event} (hI : OneCall mv tr d m p) (h : Phase.Step m p e p' m') :
    OneCall mv (tr ++ [e]) d m' p' := by
  cases hI with
  | before hd hc hs hf hp h2 hr =>
    obtain ⟨hp', hs', hf', hc', rfl⟩ := idle_robot tr hp h2 h
    exact .before hd (hc'.trans hc) (hs'.trans hs) (hf'.trans hf) hp' h2 hr
  | during hc hI hw =>
    have hc' : calls (tr ++ [e]) = calls tr := by rw [calls_append, h.no_call, List.append_nil]
    refine .during (hc'.trans hc) (callInv_robot hI h) (fun hs => ⟨?_, ?_⟩)
    · exact left_robot hI.common.progress (fun hs => (hw hs).1) h hs
    · rintro rfl
      rw [starts_append] at hs
      obtain ⟨h1, h2⟩ := hw (List.append_eq_nil_iff.mp hs).1
      cases h
      · exact h2 rfl
      · exact h1 rfl

theorem oneCall_run {mv : MOVE} {s t : Cell} {tr : List Event}
    (hq : Resting s) (h : Run cell (oneCall mv) s tr t) :
    OneCall mv tr t.driver t.mem t.robot.phase := by
  apply cell_invariant (OneCall mv) h
  · exact .before hq.driver rfl rfl rfl (idle_of_inCycle hq.cycle) hq.cmd2 hq.ready
  · rintro tr m r c hI ⟨hc, rfl⟩
    exact oneCall_call hI hc
  · exact fun _ _ _ _ _ _ _ hI _ hd => oneCall_pc hI hd
  · exact fun _ _ _ _ _ _ _ hI hr => oneCall_robot hI hr

/-- The call of a run with one call comes before every motion. -/
theorem oneCall_starts {mv : MOVE} {s t : Cell} {tr₀ tr₁ : List Event}
    (hq : Resting s) (h : Run cell (oneCall mv) s (tr₀ ++ .call (.move mv) :: tr₁) t) :
    starts tr₀ = [] ∧ finished tr₀ = 0 := by
  have hone : (calls (tr₀ ++ .call (.move mv) :: tr₁)).length ≤ 1 := by
    cases oneCall_run hq h with
    | before _ hc => simp [hc]
    | during hc => simp [hc]
  obtain ⟨u, hu, -⟩ := h.split
  cases oneCall_run hq hu with
  | before _ _ hs hf => exact ⟨hs, hf⟩
  | during hc =>
    rw [calls_append, hc] at hone
    simp [calls, Event.call?] at hone

/-- The robot performs at most one motion, and only the motion of the call. When the call
returns true, the robot has started and carried out that motion since the call began. -/
theorem one_call_from_a_quiescent_state_is_one_motion_or_none (mv : MOVE)
    (s t : Cell) (tr : List Event) (hq : Quiescent s) (h : Run cell (oneCall mv) s tr t) :
    (starts tr = [] ∨ starts tr = [mv.words]) ∧
      ∀ tr₀ tr₁ tr₂, tr = tr₀ ++ .call (.move mv) :: tr₁ ++ .ret (.move mv) true :: tr₂ →
        starts tr₀ = [] ∧ starts tr₁ = [mv.words] ∧ finished tr₁ = 1 := by
  refine ⟨?_, ?_⟩
  · cases oneCall_run hq.resting h with
    | before _ _ hs => exact Or.inl hs
    | during _ hI =>
      cases hI.common.progress with
      | before hs => exact Or.inl hs
      | moving hs => exact Or.inr hs
      | waiting hs => exact Or.inr hs
      | past hs => exact Or.inr hs
  · rintro tr₀ tr₁ tr₂ rfl
    obtain ⟨u, v, i, hu, -, hM, -⟩ := h.at_event
    obtain ⟨k, hk, hl, rfl⟩ := cell_ret_true hM
    obtain ⟨hs₀, hf₀⟩ := oneCall_starts hq.resting hu
    have h9 : 9 ≤ k := by simpa [Call.body, robot_sendMove_eq] using hl
    cases oneCall_run hq.resting hu with
    | before hd => simp [hk] at hd
    | during _ hI =>
      rw [hk] at hI
      obtain ⟨hs, hf⟩ := hI.2.seen (by omega)
      rw [List.append_cons] at hs hf
      simp only [starts_append, finished_append, hs₀, hf₀] at hs hf
      exact ⟨hs₀, by simpa using hs, by simpa using hf⟩

/-- The law at one call with no failure: the robot carries out its move, and it returns true. -/
theorem one_call_is_one_motion_run :
    ∃ tr t, Run cell (oneCall ⟨13, 29, NORMAL_MOVE⟩) Cell.start tr t ∧
      .ret (.move ⟨13, 29, NORMAL_MOVE⟩) true ∈ tr ∧
      (starts tr = [] ∨ starts tr = [MOVE.words ⟨13, 29, NORMAL_MOVE⟩]) := by
  have hrun : ∃ tr t, Run cell (oneCall ⟨13, 29, NORMAL_MOVE⟩) Cell.start tr t ∧
      decide (.ret (.move ⟨13, 29, NORMAL_MOVE⟩) true ∈ tr) = true :=
    exists_run_of_execWith _
      (.call (.move ⟨13, 29, NORMAL_MOVE⟩) :: pcSteps 5 ++ robotSteps 33 ++ pcSteps 5)
      (by decide +kernel)
  obtain ⟨tr, t, h, hP⟩ := hrun
  exact ⟨tr, t, h, of_decide_eq_true hP,
    (one_call_from_a_quiescent_state_is_one_motion_or_none ⟨13, 29, NORMAL_MOVE⟩
      Cell.start t tr ⟨rfl, trivial, by decide, by decide, by decide⟩ h).1⟩

end robotchess
