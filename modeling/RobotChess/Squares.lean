-- From the ints of a MOVE to the words that the robot latches. No program checks
-- a square or a type, so each field arrives modulo 2 ^ 16. For the squares of the
-- palette and the two types that is the field itself.
import RobotChess.OneCall

open runs

namespace robotchess

/-! ## A field and its word -/

theorem toNat_word (x : Int) : ((BitVec.ofInt 16 x).toNat : Int) = x % 65536 := by
  rw [BitVec.toNat_ofInt]
  omega

/-- Two ints of the range of a word with the same word are equal. -/
theorem word_injective {x y : Int} (hx : 0 ≤ x ∧ x < 65536) (hy : 0 ≤ y ∧ y < 65536)
    (h : BitVec.ofInt 16 x = BitVec.ofInt 16 y) : x = y := by
  have hxy : x % 65536 = y % 65536 := by rw [← toNat_word, ← toNat_word, h]
  omega

theorem MOVE.Valid.type_range {m : MOVE} (h : m.Valid) : 0 ≤ m.type ∧ m.type < 65536 := by
  rcases h.1 with h | h
  · rw [h]
    decide
  · rw [h]
    decide

/-- Two valid moves with the same words are the same move. -/
theorem words_injective {m m' : MOVE} (h : m.Valid) (h' : m'.Valid) (hw : m.words = m'.words) :
    m = m' := by
  simp only [MOVE.words, Params.mk.injEq] at hw
  obtain ⟨ht, hs, hd⟩ := hw
  have htype := word_injective h.type_range h'.type_range ht
  obtain ⟨-, hs₁, hd₁⟩ := h
  obtain ⟨-, hs₂, hd₂⟩ := h'
  have hsource := word_injective (by omega) (by omega) hs
  have hdest := word_injective (by omega) (by omega) hd
  cases m
  cases m'
  simp_all

/-! ## What the robot reads in a call -/

/-- A read of a parameter word gives the word of `w`. -/
def ReadsOnly (w : Params) : Event → Prop
  | .read bit v => (bit = nWmovTypeAddr → v = w.type) ∧ (bit = nWmovSourceAddr → v = w.source) ∧
      (bit = nWmovDestAddr → v = w.dest)
  | _ => True

/-- An address of a command word is none of a parameter. -/
theorem readsOnly_command (w : Params) {bit : Nat} (v : REG16)
    (h : bit = nWcmd1Addr ∨ bit = nWcmd2Addr ∨ bit = nWcmdExitAddr) :
    ReadsOnly w (.read bit v) := by
  rcases h with rfl | rfl | rfl
  all_goals exact ⟨fun h => absurd h (by decide), fun h => absurd h (by decide),
    fun h => absurd h (by decide)⟩

theorem readsOnly_robot {w : Params} {m m' : Mem} {p p' : Phase} {e : Event}
    (hl : p.Latching → m.params = w) (h : Phase.Step m p e p' m') : ReadsOnly w e := by
  cases h
  case quiet hq =>
    cases e
    case read => exact hq.elim
    all_goals trivial
  case type =>
    obtain rfl := hl trivial
    exact ⟨fun _ => rfl, fun h => absurd h (by decide), fun h => absurd h (by decide)⟩
  case source =>
    obtain rfl := hl trivial
    exact ⟨fun h => absurd h (by decide), fun _ => rfl, fun h => absurd h (by decide)⟩
  case dest =>
    obtain rfl := hl trivial
    exact ⟨fun h => absurd h (by decide), fun h => absurd h (by decide), fun _ => rfl⟩
  all_goals first
    | trivial
    | exact readsOnly_command _ _ (by simp)

theorem readsOnly_pc {w : Params} {o : Outcome} {ans : REG16} {d d' : Driver} {e : Event}
    (h : Driver.Step o ans d e d') : ReadsOnly w e := by
  cases e
  case read =>
    rcases driver_event h with ⟨a, v, he, -, -⟩ | ⟨he, -⟩ <;> cases he
  all_goals trivial

/-- A robot that reads the parameters reads those of the call. -/
theorem OneCall.latching {mv : MOVE} {tr : List Event} {d : Driver} {m : Mem} {p : Phase}
    (hI : OneCall mv tr d m p) : p.Latching → m.params = mv.words := by
  intro hl
  cases hI with
  | before _ _ _ _ hp =>
    cases p
    all_goals first
      | exact hp.elim
      | exact hl.elim
  | during _ hI =>
    cases hI.common.progress with
    | before _ _ _ h => exact h hl
    | moving _ _ h =>
      rw [h] at hl
      exact hl.elim
    | waiting _ _ h =>
      rw [h] at hl
      exact hl.elim
    | past _ _ h =>
      cases p
      all_goals first
        | exact h.elim
        | exact hl.elim

/-! ## No move is turned away -/

/-- The call has issued its first write, CMD_ALLOW_MOVE_1. -/
def Issued (tr : List Event) : Prop :=
  .write .ADDR_CMD_1 allowMoveCmd1 ∈ tr ∨ .lost .ADDR_CMD_1 allowMoveCmd1 ∈ tr

theorem Issued.snoc {tr : List Event} (h : Issued tr) (e : Event) : Issued (tr ++ [e]) := by
  rcases h with h | h
  · exact Or.inl (List.mem_append_left _ h)
  · exact Or.inr (List.mem_append_left _ h)

theorem issued_allow1 (tr : List Event) (o : Outcome) :
    Issued (tr ++ [writeEvent o .ADDR_CMD_1 allowMoveCmd1]) := by
  unfold writeEvent
  split
  · exact Or.inl (by simp)
  · exact Or.inr (by simp)

/-- The PC is in the call of `mv`, past its first operation. -/
def Driver.Begun (mv : MOVE) : Driver → Prop
  | .busy c k => c = .move mv ∧ 1 ≤ k
  | .failing c => c = .move mv
  | .idle => False

theorem begun_step {mv : MOVE} {o : Outcome} {ans : REG16} {d d' : Driver} {e : Event}
    (h : Driver.Step o ans d e d') (hd : d'.Begun mv) :
    d.Begun mv ∨ e = writeEvent o .ADDR_CMD_1 allowMoveCmd1 := by
  cases h
  case allow1 => exact Or.inr rfl
  case word hk _ => exact Or.inl ⟨hd.1, (word_bounds hk).1⟩
  case wordFailed hk _ => exact Or.inl ⟨hd, (word_bounds hk).1⟩
  case allow2 => exact Or.inl ⟨hd.1, by omega⟩
  case answered => exact Or.inl ⟨hd.1, by omega⟩
  case notYet => exact Or.inl hd
  case noAnswer => exact Or.inl ⟨hd, by omega⟩
  case clear1 ht =>
    obtain ⟨rfl, -⟩ := hd
    obtain rfl := tailAt_move.mp ht
    exact Or.inl ⟨rfl, by omega⟩
  case clear2 => exact Or.inl ⟨hd.1, by omega⟩
  case clrReady => exact Or.inl ⟨hd.1, by omega⟩
  all_goals first
    | exact hd.elim
    | cases hd.1
    | cases hd

theorem begun_ret {mv : MOVE} {o : Outcome} {ans : REG16} {d d' : Driver} {b : Bool}
    (h : Driver.Step o ans d (.ret (.move mv) b) d') : d.Begun mv := by
  obtain ⟨-, ⟨-, k, rfl, hk⟩ | ⟨-, rfl | ⟨w, hw⟩⟩⟩ := ret_cases h
  · have h9 : 9 ≤ k := by simpa [Call.body, robot_sendMove_eq] using hk
    exact ⟨rfl, by omega⟩
  · rfl
  · cases hw

/-- The first write of a call comes before all else that the call does. -/
theorem issued_run {mv : MOVE} {s t : Cell} {tr : List Event} (hs : s.driver = .idle)
    (h : Run cell (oneCall mv) s tr t) {b : Bool} (hb : .ret (.move mv) b ∈ tr) : Issued tr := by
  have key : (t.driver.Begun mv → Issued tr) ∧ ∀ b, .ret (.move mv) b ∈ tr → Issued tr := by
    apply cell_invariant (fun tr d _ _ => (d.Begun mv → Issued tr) ∧
      ∀ b, .ret (.move mv) b ∈ tr → Issued tr) h
    · refine ⟨fun hd => ?_, fun b hb => by cases hb⟩
      rw [hs] at hd
      exact hd.elim
    · rintro tr m r c ⟨-, hret⟩ -
      refine ⟨fun hd => absurd hd.2 (by omega), fun b hb => ?_⟩
      exact (hret b (by simpa using hb)).snoc _
    · rintro tr d m r o e d' ⟨hbegun, hret⟩ - hstep
      refine ⟨fun hd => ?_, fun b hb => ?_⟩
      · rcases begun_step hstep hd with hd | rfl
        · exact (hbegun hd).snoc e
        · exact issued_allow1 tr o
      · rcases List.mem_append.mp hb with hb | hb
        · exact (hret b hb).snoc e
        · obtain rfl := List.mem_singleton.mp hb
          exact (hbegun (begun_ret hstep)).snoc _
    · rintro tr d m p e p' m' ⟨hbegun, hret⟩ hstep
      refine ⟨fun hd => (hbegun hd).snoc e, fun b hb => ?_⟩
      rcases List.mem_append.mp hb with hb | hb
      · exact (hret b hb).snoc e
      · obtain rfl := List.mem_singleton.mp hb
        cases phase_event_onPlant hstep
  exact key.2 b hb

/-! ## The law -/

/-- Every read of the input word at an address gives the number `n`. -/
def Latches (tr : List Event) (bit : Nat) (n : Int) : Prop :=
  ∀ w, .read bit w ∈ tr → (w.toNat : Int) = n

/-- All that the robot reads as type, source and destination are these numbers. -/
def LatchesMove (tr : List Event) (type source dest : Int) : Prop :=
  Latches tr nWmovTypeAddr type ∧ Latches tr nWmovSourceAddr source ∧
    Latches tr nWmovDestAddr dest

theorem readsOnly_run {mv : MOVE} {s t : Cell} {tr : List Event} (hq : Resting s)
    (h : Run cell (oneCall mv) s tr t) : ∀ e ∈ tr, ReadsOnly mv.words e := by
  intro e he
  obtain ⟨tr₁, tr₂, rfl⟩ := List.append_of_mem he
  obtain ⟨u, v, i, hu, -, hM, -⟩ := h.at_event
  have hI := oneCall_run hq hu
  cases cell_step hM with
  | call c _ => trivial
  | pc hd => exact readsOnly_pc hd
  | robot hr => exact readsOnly_robot hI.latching (step_phase hr)

theorem latches_words {mv : MOVE} {tr : List Event} (h : ∀ e ∈ tr, ReadsOnly mv.words e) :
    LatchesMove tr (mv.type % 65536) (mv.source % 65536) (mv.dest % 65536) := by
  refine ⟨fun w hw => ?_, fun w hw => ?_, fun w hw => ?_⟩
  · rw [(h _ hw).1 rfl]
    exact toNat_word mv.type
  · rw [(h _ hw).2.1 rfl]
    exact toNat_word mv.source
  · rw [(h _ hw).2.2 rfl]
    exact toNat_word mv.dest

theorem OneCall.starts_words {mv : MOVE} {tr : List Event} {d : Driver} {m : Mem} {p : Phase}
    (hI : OneCall mv tr d m p) : ∀ q ∈ starts tr, q = mv.words := by
  intro q hq
  cases hI with
  | before _ _ hs => simp [hs] at hq
  | during _ hI =>
    cases hI.common.progress with
    | before hs => simp [hs] at hq
    | moving hs => simpa [hs] using hq
    | waiting hs => simpa [hs] using hq
    | past hs => simpa [hs] using hq

/-- No call of `robot_sendMove` turns its move away before its first write. The robot latches the
three fields modulo 2 ^ 16 and starts no other motion. For a valid move these are the fields
themselves, and no other valid move is carried out as the same motion. -/
theorem the_robot_latches_the_fields_as_words (mv : MOVE) (s t : Cell) (tr : List Event)
    (hq : Resting s) (h : Run cell (oneCall mv) s tr t) :
    (∀ b, .ret (.move mv) b ∈ tr → Issued tr) ∧
      LatchesMove tr (mv.type % 65536) (mv.source % 65536) (mv.dest % 65536) ∧
      (∀ p ∈ starts tr, p = mv.words) ∧
      (mv.Valid → LatchesMove tr mv.type mv.source mv.dest ∧
        ∀ mv' : MOVE, mv'.Valid → mv'.words ∈ starts tr → mv' = mv) := by
  have hlatch := latches_words (readsOnly_run hq h)
  have hstarts := (oneCall_run hq h).starts_words
  refine ⟨fun b hb => issued_run hq.driver h hb, hlatch, hstarts, fun hv => ⟨?_, ?_⟩⟩
  · have ht := hv.type_range
    obtain ⟨-, hs, hd⟩ := hv
    rwa [Int.emod_eq_of_lt ht.1 ht.2, Int.emod_eq_of_lt (by omega) (by omega),
      Int.emod_eq_of_lt (by omega) (by omega)] at hlatch
  · intro mv' hv' hmem
    exact words_injective hv' hv (hstarts _ hmem)

/-- The law at a move whose fields the robot has read. -/
theorem the_robot_latches_the_fields_as_words_run :
    ∃ tr t, Run cell (oneCall ⟨13, 29, NORMAL_MOVE⟩) Cell.start tr t ∧
      .read nWmovSourceAddr 13 ∈ tr ∧ LatchesMove tr NORMAL_MOVE 13 29 := by
  have hrun : ∃ tr t, Run cell (oneCall ⟨13, 29, NORMAL_MOVE⟩) Cell.start tr t ∧
      decide (.read nWmovSourceAddr 13 ∈ tr) = true :=
    exists_run_of_execWith (fun tr _ => _)
      (.call (.move ⟨13, 29, NORMAL_MOVE⟩) :: pcSteps 5 ++ robotSteps 12) (by decide +kernel)
  obtain ⟨tr, t, h, hP⟩ := hrun
  have hlaw := the_robot_latches_the_fields_as_words ⟨13, 29, NORMAL_MOVE⟩ Cell.start t tr
    ⟨rfl, trivial, by decide, by decide⟩ h
  exact ⟨tr, t, h, of_decide_eq_true hP, (hlaw.2.2.2 (by decide)).1⟩

/-- A source of 65549 is not turned away. It is carried out as the move from square 13, and the
call returns true. -/
theorem a_wrapped_square_is_carried_out :
    Resting Cell.start ∧ ∃ tr t, Run cell (oneCall ⟨65549, 29, NORMAL_MOVE⟩) Cell.start tr t ∧
      .ret (.move ⟨65549, 29, NORMAL_MOVE⟩) true ∈ tr ∧ .read nWmovSourceAddr 13 ∈ tr ∧
      starts tr = [MOVE.words ⟨13, 29, NORMAL_MOVE⟩] := by
  refine ⟨⟨rfl, trivial, by decide, by decide⟩, ?_⟩
  have hrun : ∃ tr t, Run cell (oneCall ⟨65549, 29, NORMAL_MOVE⟩) Cell.start tr t ∧
      decide (.ret (.move ⟨65549, 29, NORMAL_MOVE⟩) true ∈ tr ∧
        .read nWmovSourceAddr 13 ∈ tr ∧ starts tr = [MOVE.words ⟨13, 29, NORMAL_MOVE⟩]) = true :=
    exists_run_of_execWith (fun tr _ => _)
      (.call (.move ⟨65549, 29, NORMAL_MOVE⟩) :: pcSteps 5 ++ robotSteps 33 ++ pcSteps 5)
      (by decide +kernel)
  obtain ⟨tr, t, h, hP⟩ := hrun
  exact ⟨tr, t, h, of_decide_eq_true hP⟩

end robotchess
