-- What a connection is for: a store at a distance. A call is carried out at one moment
-- between its request and its return, and it returns what the operation gave at that
-- moment. No call waits for ever.
import RobotChess.Connection

open bytes framing runs

namespace robotchess

/-! ## The store at a distance -/

/-- Where a call is. -/
inductive Stage
  | idle
  | called (r : Request)
  | carried (res : Except Errno Result)
  deriving DecidableEq

structure Remote where
  store : Store
  stage : Stage
  deriving DecidableEq

inductive RemoteInput
  | calls (r : Request)
  | carries
  | returns
  | sets (s : Store)

def remote : Machine Remote RemoteInput Moment
  | ⟨s, .idle⟩, .calls r => if r.Allowed then some (.called r, ⟨s, .called r⟩) else none
  | ⟨s, .called r⟩, .carries => some (.replied, ⟨r.op.carry s, .carried (r.outcome s)⟩)
  | ⟨s, .carried res⟩, .returns => some (.returned res, ⟨s, .idle⟩)
  | ⟨_, stage⟩, .sets s => some (.set s, ⟨s, stage⟩)
  | _, _ => none

/-- What one step of the store at a distance can be. -/
inductive Remote.Step : Remote → Moment → Remote → Prop
  | calls {s : Store} {r : Request} : r.Allowed → Step ⟨s, .idle⟩ (.called r) ⟨s, .called r⟩
  | carries {s : Store} {r : Request} :
      Step ⟨s, .called r⟩ .replied ⟨r.op.carry s, .carried (r.outcome s)⟩
  | returns {s : Store} {res : Except Errno Result} :
      Step ⟨s, .carried res⟩ (.returned res) ⟨s, .idle⟩
  | sets {s s' : Store} {stage : Stage} : Step ⟨s, stage⟩ (.set s') ⟨s', stage⟩

theorem remote_cases {y y' : Remote} {k : RemoteInput} {e : Moment}
    (h : remote y k = some (e, y')) : Remote.Step y e y' := by
  obtain ⟨s, stage⟩ := y
  cases k with
  | calls r =>
    cases stage with
    | idle =>
      simp only [remote] at h
      split at h
      · cases h
        exact .calls ‹_›
      · cases h
    | _ => cases h
  | carries =>
    cases stage with
    | called r =>
      cases h
      exact .carries
    | _ => cases h
  | returns =>
    cases stage with
    | carried res =>
      cases h
      exact .returns
    | _ => cases h
  | sets s' =>
    cases stage <;> cases h <;> exact .sets

/-- On the line there is no message but the one of the call. -/
def Single (x : Traffic) : Stage → Prop
  | .idle => x.waiting = none ∧ x.requests = [] ∧ x.responses = []
  | .called r => ∃ a, a.request = r ∧ x.waiting = some a ∧ x.requests = [a] ∧ x.responses = []
  | .carried res => ∃ a s, a.request.outcome s = res ∧ x.waiting = some a ∧ x.requests = [] ∧
    x.responses = [⟨a, s⟩]

section
variable {B : modbus_backend_t} {L : Framed B} {slave : Byte}

/-- With no time-out a step of the messages is a step of the store at a distance. -/
theorem remote_step {x x' : Traffic} {k : TrafficInput} {e : Moment} {stage : Stage}
    (hallowed : ∀ a, x.waiting = some a → a.request.Allowed) (hx : Single x stage)
    (hk : ∀ code, k ≠ .fails code) (hM : traffic L slave x k = some (e, x')) :
    ∃ i stage', remote ⟨x.store, stage⟩ i = some (e, ⟨x'.store, stage'⟩) ∧ Single x' stage' := by
  cases k with
  | calls r =>
    simp only [traffic] at hM
    split at hM
    · rename_i hr
      cases hM
      cases stage with
      | idle =>
        obtain ⟨-, hreq, hrsp⟩ := hx
        refine ⟨.calls r, .called r, by rw [remote, if_pos hr.2], _, rfl, rfl, ?_, hrsp⟩
        simp only [hreq, List.nil_append]
      | called r' =>
        obtain ⟨a, -, hw, -⟩ := hx
        simp [hw] at hr
      | carried res =>
        obtain ⟨a, s, -, hw, -⟩ := hx
        simp [hw] at hr
    · cases hM
  | replies =>
    cases stage with
    | idle =>
      simp only [traffic, hx.2.1] at hM
      cases hM
    | called r =>
      obtain ⟨a, rfl, hw, hreq, hrsp⟩ := hx
      rw [traffic_replies hreq] at hM
      cases hM
      exact ⟨.carries, _, rfl, a, x.store, rfl, hw, rfl, by simp only [hrsp, List.nil_append]⟩
    | carried res =>
      obtain ⟨a, s, -, -, hreq, -⟩ := hx
      simp only [traffic, hreq] at hM
      cases hM
  | returns =>
    cases stage with
    | idle =>
      simp only [traffic, hx.1] at hM
      cases hM
    | called r =>
      obtain ⟨a, -, hw, -, hrsp⟩ := hx
      simp only [traffic, hw, hrsp] at hM
      cases hM
    | carried res =>
      obtain ⟨a, s, rfl, hw, hreq, hrsp⟩ := hx
      rw [traffic_returns hw hrsp, hears_own L slave (hallowed a hw)] at hM
      cases hM
      exact ⟨.returns, .idle, rfl, rfl, hreq, rfl⟩
  | fails code => exact absurd rfl (hk code)
  | sets s =>
    simp only [traffic] at hM
    cases hM
    refine ⟨.sets s, stage, ?_, ?_⟩
    · cases stage <;> rfl
    · cases stage <;> exact hx

end

/-- The bytes of a connection at which the store at a distance is in some state. -/
def Distant {B : modbus_backend_t} (L : Framed B) (slave : Byte) (c : Connection) (y : Remote) :
    Prop :=
  ∃ x, Carries L slave c x ∧ x.store = y.store ∧ Single x y.stage

section
variable {B : modbus_backend_t} {L : Framed B} {slave : Byte} {client server : Int}
  {c c' : Connection} {y : Remote}

theorem distant_start (t_id : Word) (s : Store) :
    Distant L slave (.start B t_id s.mapping) ⟨s, .idle⟩ :=
  ⟨_, carries_start L slave t_id s, rfl, rfl, rfl, rfl⟩

theorem Distant.tables (h : Distant L slave c y) : c.tables = y.store.mapping := by
  obtain ⟨x, hc, hs, -⟩ := h
  rw [hc.tables, hs]

/-- The program of the server changes its tables. -/
theorem Distant.sets (h : Distant L slave c y) (s : Store) :
    Distant L slave { c with tables := s.mapping } ⟨s, y.stage⟩ := by
  obtain ⟨x, hc, -, hx⟩ := h
  refine ⟨{ x with store := s }, ⟨hc.t_id, rfl, hc.call, hc.waiting, hc.requests, hc.server,
    hc.client, hc.idle⟩, rfl, ?_⟩
  obtain ⟨st, stage⟩ := y
  cases stage <;> exact hx

theorem distant_step (hB : IsBackend B)
    (hf : B.filter_request server (BitVec.ofInt 8 client) = false)
    (h : Distant L (BitVec.ofInt 8 client) c y) {tr : List Moment} {i : ConnectionInput}
    (hi : patient tr c i) {e : Moment}
    (hM : connection B client server c i = some (e, c')) :
    (e.seen = [] ∧ Distant L (BitVec.ofInt 8 client) c' y) ∨
      e.seen = [e] ∧ ∃ k y', remote y k = some (e, y') ∧
        Distant L (BitVec.ofInt 8 client) c' y' := by
  obtain ⟨x, hc, hs, hx⟩ := h
  obtain ⟨st, stage⟩ := y
  cases hs
  rcases carries_step hB hf hc (betweenMessages_of_patient hi) hM with
    ⟨he, hc'⟩ | ⟨he, k, x', hk, hfail, hc'⟩
  · exact Or.inl ⟨he, x, hc', rfl, hx⟩
  · obtain ⟨j, stage', hj, hx'⟩ := remote_step hc.waiting hx
      (fun code hcode => hi.1 code (hfail code hcode)) hk
    exact Or.inr ⟨he, j, _, hj, x', hc', rfl, hx'⟩

end

def anyInput : Remote → RemoteInput → Prop := fun _ _ => True

/-- When no call times out and the server gives up no request, each run over the wire is a run of
the store at a distance, whatever the pieces that the streams are cut into. In between the program
of the server may set its tables to any store, so to bits that are 0 or 1. A call that sends
nothing is not seen. -/
theorem a_connection_is_a_store_at_a_distance (B : modbus_backend_t) (hB : IsBackend B)
    (client server : Int) (hf : B.filter_request server (BitVec.ofInt 8 client) = false)
    (t_id : Word) (s : Store) (tr : List Moment) (c : Connection)
    (h : Run (connection B client server) patient (.start B t_id s.mapping) tr c) :
    ∃ x, Run remote (fun _ => anyInput) ⟨s, .idle⟩ (tr.flatMap Moment.seen) x ∧
      c.tables = x.store.mapping := by
  obtain ⟨L⟩ := hB.framed
  have hstep : ∀ tr c i e c' y, Distant L (BitVec.ofInt 8 client) c y → patient tr c i →
      connection B client server c i = some (e, c') →
      ∃ y', Run remote (fun _ => anyInput) y e.seen y' ∧
        Distant L (BitVec.ofInt 8 client) c' y' := by
    intro tr c i e c' y hd hi hM
    rcases distant_step hB hf hd hi hM with ⟨he, hd'⟩ | ⟨he, k, y', hk, hd'⟩
    · rw [he]
      exact ⟨y, .nil, hd'⟩
    · rw [he]
      exact ⟨y', .single trivial hk, hd'⟩
  have hrun : ∃ y, Run remote (fun _ => anyInput) ⟨s, .idle⟩ (tr.flatMap Moment.seen) y ∧
      Distant L (BitVec.ofInt 8 client) c y := h.refine _ _ hstep (distant_start t_id s)
  obtain ⟨y, hy, hd⟩ := hrun
  exact ⟨y, hy, hd.tables⟩

/-- Two registers are read, and they change while the request is on its way. -/
theorem two_registers_are_read_at_a_distance :
    ∃ (c : Connection) (x : Remote), Run remote (fun _ => anyInput) ⟨⟨[], [], [], [0, 0]⟩, .idle⟩
      [.called (.readRegisters 0 2), .set ⟨[], [], [], [1, 2]⟩, .replied,
        .returned (.ok (.words 2 [1, 2]))] x ∧ c.tables = x.store.mapping := by
  obtain ⟨tr, c, hrun, htr⟩ : ∃ tr c, Run (connection modbus_tcp_backend 255 255) patient
      (.start modbus_tcp_backend 0 (Store.mapping ⟨[], [], [], [0, 0]⟩)) tr c ∧ _ :=
    exists_run_of_execWith
    (fun tr _ => tr.flatMap Moment.seen = [.called (.readRegisters 0 2),
      .set ⟨[], [], [], [1, 2]⟩, .replied, .returned (.ok (.words 2 [1, 2]))])
    [.calls (.readRegisters 0 2), .serverReads 7, .sets ⟨[], [], [], [1, 2]⟩, .serverReads 3,
      .replies fun _ => 0, .clientReads 4, .clientReads 9, .clientReads 0, .clientReads 9, .returns]
    (by decide)
  obtain ⟨x, hx, ht⟩ := a_connection_is_a_store_at_a_distance modbus_tcp_backend (Or.inl rfl)
    255 255 rfl 0 ⟨[], [], [], [0, 0]⟩ tr c hrun
  rw [of_decide_eq_true htr] at hx
  exact ⟨c, x, hx, ht⟩

end robotchess
