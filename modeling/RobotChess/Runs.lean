-- Runs of a machine. A machine gets an input in a state and answers with an
-- event and the next state, or takes no step. A run is a sequence of steps, and
-- a guard says which inputs it may take. All the laws over whole runs come from
-- the rules here: an invariant, a rank that falls, a map to another machine.
import Mathlib.Data.Finset.Card
import Mathlib.Data.Finset.Max
import Mathlib.Tactic.Common

namespace runs

universe u v w

variable {σ : Type u} {ι : Type v} {ε : Type w}

/-! ## Machines and runs -/

/-- A state and an input give an event and the next state, or no step. -/
abbrev Machine (σ : Type u) (ι : Type v) (ε : Type w) := σ → ι → Option (ε × σ)

/-- Which inputs a run may take, from its events so far and its state. -/
abbrev Guard (σ : Type u) (ι : Type v) (ε : Type w) := List ε → σ → ι → Prop

/-- The runs from `s` whose steps all meet the guard, with their events, oldest first. -/
inductive Run (M : Machine σ ι ε) (ok : Guard σ ι ε) (s : σ) : List ε → σ → Prop
  | nil : Run M ok s [] s
  | snoc {tr : List ε} {t u : σ} {i : ι} {e : ε} :
      Run M ok s tr t → ok tr t i → M t i = some (e, u) → Run M ok s (tr ++ [e]) u

variable {M : Machine σ ι ε} {ok : Guard σ ι ε} {s t : σ} {tr : List ε}

/-- The invariant rule: what holds at the start and survives each step holds after each run. -/
theorem Run.invariant (Inv : List ε → σ → Prop) (h : Run M ok s tr t) (h0 : Inv [] s)
    (hstep : ∀ tr t i e u, Inv tr t → ok tr t i → M t i = some (e, u) → Inv (tr ++ [e]) u) :
    Inv tr t := by
  induction h with
  | nil => exact h0
  | snoc _ hok hM ih => exact hstep _ _ _ _ _ ih hok hM

/-- A run with no events stays where it is. -/
theorem Run.of_nil (h : Run M ok s [] t) : t = s := by
  generalize hl : ([] : List ε) = l at h
  cases h with
  | nil => rfl
  | snoc => simp at hl

/-- The last step of a run that has events. -/
theorem Run.last {e : ε} (h : Run M ok s (tr ++ [e]) t) :
    ∃ u i, Run M ok s tr u ∧ ok tr u i ∧ M u i = some (e, t) := by
  generalize hl : tr ++ [e] = l at h
  cases h with
  | nil => simp at hl
  | snoc hr hok hM =>
    obtain ⟨rfl, he⟩ := List.append_inj' hl rfl
    cases he
    exact ⟨_, _, hr, hok, hM⟩

/-- A run splits at every point of its events. -/
theorem Run.split {tr₁ tr₂ : List ε} (h : Run M ok s (tr₁ ++ tr₂) t) :
    ∃ u, Run M ok s tr₁ u ∧ Run M (fun tr => ok (tr₁ ++ tr)) u tr₂ t := by
  induction tr₂ using List.reverseRecOn generalizing t with
  | nil => exact ⟨t, by simpa using h, .nil⟩
  | append_singleton l e ih =>
    rw [← List.append_assoc] at h
    obtain ⟨u, i, hr, hok, hM⟩ := h.last
    obtain ⟨u', h1, h2⟩ := ih hr
    exact ⟨u', h1, .snoc h2 hok hM⟩

/-- The step of a run at one of its events. -/
theorem Run.at_event {tr₁ tr₂ : List ε} {e : ε} (h : Run M ok s (tr₁ ++ e :: tr₂) t) :
    ∃ u v i, Run M ok s tr₁ u ∧ ok tr₁ u i ∧ M u i = some (e, v) ∧
      Run M (fun tr => ok (tr₁ ++ [e] ++ tr)) v tr₂ t := by
  rw [List.append_cons] at h
  obtain ⟨v, h1, h2⟩ := h.split
  obtain ⟨u, i, hr, hok, hM⟩ := h1.last
  exact ⟨u, v, i, hr, hok, hM, h2⟩

/-- The first step of a run that has events. -/
theorem Run.first {e : ε} (h : Run M ok s (e :: tr) t) :
    ∃ u i, ok [] s i ∧ M s i = some (e, u) ∧ Run M (fun tr => ok (e :: tr)) u tr t := by
  rw [← List.nil_append (e :: tr)] at h
  obtain ⟨s', u, i, hs, hok, hM, hr⟩ := h.at_event
  obtain rfl := hs.of_nil
  exact ⟨u, i, hok, hM, hr⟩

/-- Two runs in a row are one run. -/
theorem Run.append {tr₁ tr₂ : List ε} {u : σ} (h₁ : Run M ok s tr₁ u)
    (h₂ : Run M (fun tr => ok (tr₁ ++ tr)) u tr₂ t) : Run M ok s (tr₁ ++ tr₂) t := by
  induction h₂ with
  | nil => simpa using h₁
  | snoc _ hok hM ih =>
    rw [← List.append_assoc]
    exact .snoc ih hok hM

/-! ## Positions in a trace -/

theorem lt_of_at {i : Nat} {e : ε} (h : tr[i]? = some e) : i < tr.length :=
  (List.getElem?_eq_some_iff.mp h).1

theorem at_snoc {i : Nat} {e : ε} (h : tr[i]? = some e) (x : ε) : (tr ++ [x])[i]? = some e := by
  rw [List.getElem?_append_left (lt_of_at h)]
  exact h

theorem at_end (tr : List ε) (x : ε) : (tr ++ [x])[tr.length]? = some x := by
  simp

theorem at_of_snoc {i : Nat} {e x : ε} (h : (tr ++ [x])[i]? = some e) :
    tr[i]? = some e ∨ (i = tr.length ∧ x = e) := by
  have hlt := lt_of_at h
  rw [List.length_append, List.length_singleton] at hlt
  by_cases hi : i < tr.length
  · rw [List.getElem?_append_left hi] at h
    exact Or.inl h
  · have hi' : i = tr.length := by omega
    subst hi'
    rw [at_end] at h
    exact Or.inr ⟨rfl, Option.some.inj h⟩

/-- The positions of the events of one kind. -/
def positions (P : ε → Bool) (tr : List ε) : Finset Nat :=
  (Finset.range tr.length).filter fun i => (tr[i]?).any P

theorem mem_positions {P : ε → Bool} {i : Nat} :
    i ∈ positions P tr ↔ ∃ e, tr[i]? = some e ∧ P e = true := by
  unfold positions
  simp only [Finset.mem_filter, Finset.mem_range, Option.any_eq_true]
  constructor
  · rintro ⟨-, e, h⟩
    exact ⟨e, h⟩
  · rintro ⟨e, h, hP⟩
    exact ⟨lt_of_at h, e, h, hP⟩

theorem card_positions (P : ε → Bool) (tr : List ε) : (positions P tr).card = tr.countP P := by
  induction tr using List.reverseRecOn with
  | nil => rfl
  | append_singleton l x ih =>
    have hold : ∀ i ∈ Finset.range l.length, (l ++ [x])[i]? = l[i]? := by
      intro i hi
      exact List.getElem?_append_left (Finset.mem_range.mp hi)
    have hfilter : (Finset.range l.length).filter (fun i => ((l ++ [x])[i]?).any P) =
        positions P l := by
      unfold positions
      apply Finset.filter_congr
      intro i hi
      rw [hold i hi]
    unfold positions
    rw [List.length_append, List.length_singleton, Finset.range_add_one, Finset.filter_insert,
      hfilter, at_end, List.countP_append, List.countP_singleton, ← ih]
    by_cases hx : P x = true
    · simp [hx, positions]
    · simp [hx]

/-- An injection of the events of one kind into those of another. -/
theorem countP_le_of_injection {P Q : ε → Bool} (f : Nat → Nat)
    (hmap : ∀ i ∈ positions P tr, f i ∈ positions Q tr)
    (hlt : ∀ i ∈ positions P tr, ∀ j ∈ positions P tr, i < j → f i < f j) :
    tr.countP P ≤ tr.countP Q := by
  rw [← card_positions, ← card_positions]
  apply Finset.card_le_card_of_injOn f hmap
  intro i hi j hj hij
  rcases Nat.lt_trichotomy i j with h | h | h
  · exact absurd hij (Nat.ne_of_lt (hlt i hi j hj h))
  · exact h
  · exact absurd hij.symm (Nat.ne_of_lt (hlt j hj i hi h))

/-- An injection of all events of one kind but the last. -/
theorem countP_le_of_injection_but_last {P Q : ε → Bool} (f : Nat → Nat)
    (hmap : ∀ i ∈ positions P tr, ∀ k ∈ positions P tr, i < k → f i ∈ positions Q tr)
    (hlt : ∀ i ∈ positions P tr, ∀ j ∈ positions P tr, ∀ k ∈ positions P tr, i < j → j < k →
      f i < f j) : tr.countP P ≤ 1 + tr.countP Q := by
  rw [← card_positions, ← card_positions]
  by_cases hne : (positions P tr).Nonempty
  · have hmax := (positions P tr).max'_mem hne
    have hbelow : ∀ i ∈ (positions P tr).erase ((positions P tr).max' hne),
        i ∈ positions P tr ∧ i < (positions P tr).max' hne := by
      intro i hi
      have hi' := Finset.mem_of_mem_erase hi
      exact ⟨hi', lt_of_le_of_ne (Finset.le_max' _ i hi') (Finset.ne_of_mem_erase hi)⟩
    have hle : ((positions P tr).erase ((positions P tr).max' hne)).card ≤
        (positions Q tr).card := by
      apply Finset.card_le_card_of_injOn f
      · intro i hi
        obtain ⟨hP, hl⟩ := hbelow i hi
        exact hmap i hP _ hmax hl
      · intro i hi j hj hij
        obtain ⟨hPi, hli⟩ := hbelow i hi
        obtain ⟨hPj, hlj⟩ := hbelow j hj
        rcases Nat.lt_trichotomy i j with h | h | h
        · exact absurd hij (Nat.ne_of_lt (hlt i hPi j hPj _ hmax h hlj))
        · exact h
        · exact absurd hij.symm (Nat.ne_of_lt (hlt j hPj i hPi _ hmax h hli))
    rw [Finset.card_erase_of_mem hmax] at hle
    omega
  · rw [Finset.not_nonempty_iff_eq_empty.mp hne, Finset.card_empty]
    omega

/-! ## Runs that are computed -/

/-- Feed the inputs one by one, and stop with none at an input that the guard does not allow. -/
def execWith (M : Machine σ ι ε) (ok : Guard σ ι ε) [∀ tr s i, Decidable (ok tr s i)] :
    List ε → σ → List ι → Option (List ε × σ)
  | tr, s, [] => some (tr, s)
  | tr, s, i :: is =>
    if ok tr s i then (M s i).bind fun (e, t) => execWith M ok (tr ++ [e]) t is else none

theorem run_of_execWith [∀ tr s i, Decidable (ok tr s i)] {s₀ : σ} {is : List ι}
    {tr' : List ε} (h : Run M ok s₀ tr s) (hx : execWith M ok tr s is = some (tr', t)) :
    Run M ok s₀ tr' t := by
  induction is generalizing tr s with
  | nil =>
    simp only [execWith, Option.some.injEq, Prod.mk.injEq] at hx
    obtain ⟨rfl, rfl⟩ := hx
    exact h
  | cons i is ih =>
    simp only [execWith] at hx
    split at hx
    · rename_i hok
      obtain ⟨⟨e, u⟩, hM, hx⟩ := Option.bind_eq_some_iff.mp hx
      exact ih (.snoc h hok hM) hx
    · cases hx

/-- A run that a computation finds, with what it shows at its end. -/
theorem exists_run_of_execWith [∀ tr s i, Decidable (ok tr s i)] (P : List ε → σ → Bool)
    (is : List ι) (h : (execWith M ok [] s is).any (fun p => P p.1 p.2) = true) :
    ∃ tr t, Run M ok s tr t ∧ P tr t = true := by
  cases hx : execWith M ok [] s is with
  | none => simp [hx] at h
  | some p => exact ⟨p.1, p.2, run_of_execWith .nil hx, by simpa [hx] using h⟩

/-! ## A map to another machine -/

variable {τ : Type u} {κ : Type v} {N : Machine τ κ ε} {ok' : Guard τ κ ε}

/-- Each step of `M` is a step of `N` with the same event, or a hidden step that `N` does
not see. So the runs of `M`, with the seen events, are runs of `N`. -/
theorem Run.simulate (f : σ → τ) (seen : ε → Bool)
    (hstep : ∀ tr t i e u, ok tr t i → M t i = some (e, u) →
      if seen e then ∃ k, ok' (tr.filter seen) (f t) k ∧ N (f t) k = some (e, f u)
      else f u = f t)
    (h : Run M ok s tr t) : Run N ok' (f s) (tr.filter seen) (f t) := by
  induction h with
  | nil => exact .nil
  | snoc _ hok hM ih =>
    rename_i i e
    have hs := hstep _ _ _ _ _ hok hM
    rw [List.filter_append]
    split at hs
    · rename_i he
      obtain ⟨k, hk, hN⟩ := hs
      simpa [he] using Run.snoc ih hk hN
    · rename_i he
      simpa [he, hs] using ih

/-! ## Refinement -/

theorem Run.single {i : ι} {e : ε} (hok : ok [] s i) (hM : M s i = some (e, t)) :
    Run M ok s [e] t := .snoc .nil hok hM

universe u' v' w'

/-- Each step of `M` is a run of `P` between related states, and `see` says which events of `P`
an event of `M` stands for. So every run of `M` is a run of `P`. -/
theorem Run.refine {υ : Type u'} {χ : Type v'} {ε' : Type w'} {P : Machine υ χ ε'}
    {allowed : Guard υ χ ε'} (R : σ → υ → Prop) (see : ε → List ε')
    (hstep : ∀ tr t i e u x, R t x → ok tr t i → M t i = some (e, u) →
      ∃ y, Run P (fun seen => allowed (tr.flatMap see ++ seen)) x (see e) y ∧ R u y)
    (h : Run M ok s tr t) {x : υ} (h0 : R s x) :
    ∃ y, Run P allowed x (tr.flatMap see) y ∧ R t y := by
  induction h with
  | nil => exact ⟨x, .nil, h0⟩
  | snoc _ hok hM ih =>
    obtain ⟨y, hy, hR⟩ := ih
    obtain ⟨z, hz, hR'⟩ := hstep _ _ _ _ _ _ hR hok hM
    refine ⟨z, ?_, hR'⟩
    rw [List.flatMap_append, List.flatMap_singleton]
    exact hy.append hz

/-! ## Progress by a rank -/

/-- When each state that is good at some rank, and not at its goal, can take a step to one that
is good at a lower rank, every good state reaches its goal in no more steps than its rank. -/
theorem reaches_of_good (M : Machine σ ι ε) (ok : Guard σ ι ε) (Good : Nat → σ → Prop)
    (Goal : σ → Prop)
    (hstep : ∀ n t, Good n t → ¬ Goal t → ∃ i e u m, (∀ tr, ok tr t i) ∧
      M t i = some (e, u) ∧ Good m u ∧ m < n) (n : Nat) (s : σ) (hs : Good n s) :
    ∃ tr t, Run M ok s tr t ∧ tr.length ≤ n ∧ Goal t ∧ ∃ m, Good m t := by
  suffices key : ∀ m tr t, Good m t → Run M ok s tr t → tr.length + m ≤ n →
      ∃ tr t, Run M ok s tr t ∧ tr.length ≤ n ∧ Goal t ∧ ∃ m, Good m t from
    key n [] s hs .nil (by simp)
  intro m
  induction m using Nat.strongRecOn with
  | _ m ih =>
    intro tr t hg hr hl
    by_cases ht : Goal t
    · exact ⟨tr, t, hr, by omega, ht, m, hg⟩
    · obtain ⟨i, e, u, k, hok, hM, hgu, hlt⟩ := hstep m t hg ht
      exact ih k hlt (tr ++ [e]) u hgu (.snoc hr (hok _) hM)
        (by simp only [List.length_append, List.length_singleton]; omega)

/-- When each state that is good and not at its goal can take one input, and the rank then
falls, every good state reaches its goal in no more steps than its rank. -/
theorem reaches_of_rank (M : Machine σ ι ε) (ok : Guard σ ι ε) (Good Goal : σ → Prop)
    (rank : σ → Nat) (i : ι) (hok : ∀ tr t, ok tr t i)
    (hstep : ∀ t, Good t → ¬ Goal t →
      ∃ e u, M t i = some (e, u) ∧ Good u ∧ rank u < rank t)
    (s : σ) (hs : Good s) :
    ∃ tr t, Run M ok s tr t ∧ tr.length ≤ rank s ∧ Goal t ∧ Good t := by
  obtain ⟨tr, t, hr, hl, hgoal, -, hgood, -⟩ :=
    reaches_of_good M ok (fun n t => Good t ∧ rank t = n) Goal (by
      rintro n t ⟨hg, rfl⟩ ht
      obtain ⟨e, u, hM, hgu, hlt⟩ := hstep t hg ht
      exact ⟨i, e, u, rank u, fun tr => hok tr t, hM, ⟨hgu, rfl⟩, hlt⟩) (rank s) s ⟨hs, rfl⟩
  exact ⟨tr, t, hr, hl, hgoal, hgood⟩

/-- When each step of a run lowers the rank by one, down to 0, the rank is 0 from step `rank s`
on. -/
theorem Run.rank_le (Good : σ → Prop) (rank : σ → Nat) (h : Run M ok s tr t) (hs : Good s)
    (hstep : ∀ tr t i e u, Good t → ok tr t i → M t i = some (e, u) →
      Good u ∧ rank u ≤ rank t - 1) : Good t ∧ rank t ≤ rank s - tr.length := by
  apply h.invariant (fun tr t => Good t ∧ rank t ≤ rank s - tr.length) ⟨hs, by simp⟩
  rintro tr t i e u ⟨hg, hr⟩ hok hM
  obtain ⟨hg', hr'⟩ := hstep tr t i e u hg hok hM
  refine ⟨hg', ?_⟩
  rw [List.length_append, List.length_singleton]
  omega

/-- When each good state can take one input and stay good, there are runs of every length. -/
theorem exists_run_of_length (M : Machine σ ι ε) (ok : Guard σ ι ε) (Good : σ → Prop) (i : ι)
    (hok : ∀ tr t, ok tr t i) (hstep : ∀ t, Good t → ∃ e u, M t i = some (e, u) ∧ Good u)
    (s : σ) (hs : Good s) (n : Nat) :
    ∃ tr t, Run M ok s tr t ∧ tr.length = n ∧ Good t := by
  induction n with
  | zero => exact ⟨[], s, .nil, rfl, hs⟩
  | succ n ih =>
    obtain ⟨tr, t, hr, hl, hg⟩ := ih
    obtain ⟨e, u, hM, hu⟩ := hstep t hg
    exact ⟨tr ++ [e], u, .snoc hr (hok _ _) hM, by simp [hl], hu⟩

end runs
