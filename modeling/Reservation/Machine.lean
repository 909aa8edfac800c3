import Mathlib.Data.List.Induction
import Mathlib.Data.List.Forall2

/-! Deterministic machines that answer every event with a list of outputs, and
their runs. A history is the list of the events so far, oldest first. -/

structure Machine (σ ι ο : Type*) where
  step : σ → ι → σ × List ο

namespace Machine

variable {σ ι ο : Type*}

def run (M : Machine σ ι ο) (s : σ) (es : List ι) : σ :=
  es.foldl (fun t e => (M.step t e).1) s

def emit (M : Machine σ ι ο) (s : σ) (es : List ι) (e : ι) : List ο :=
  (M.step (M.run s es) e).2

def outputs (M : Machine σ ι ο) (s : σ) : List ι → List ο
  | [] => []
  | e :: es => (M.step s e).2 ++ outputs M (M.step s e).1 es

@[simp] theorem run_nil (M : Machine σ ι ο) (s : σ) : M.run s [] = s := rfl

theorem run_append (M : Machine σ ι ο) (s : σ) (es fs : List ι) :
    M.run s (es ++ fs) = M.run (M.run s es) fs := by
  simp only [run, List.foldl_append]

@[simp] theorem run_snoc (M : Machine σ ι ο) (s : σ) (es : List ι) (e : ι) :
    M.run s (es ++ [e]) = (M.step (M.run s es) e).1 := by
  simp only [run, List.foldl_append, List.foldl_cons, List.foldl_nil]

theorem outputs_append (M : Machine σ ι ο) (s : σ) (es fs : List ι) :
    M.outputs s (es ++ fs) = M.outputs s es ++ M.outputs (M.run s es) fs := by
  induction es generalizing s with
  | nil => rfl
  | cons e es ih =>
    have hr : M.run s (e :: es) = M.run (M.step s e).1 es := rfl
    simp only [List.cons_append, outputs, ih, List.append_assoc, hr]

theorem outputs_snoc (M : Machine σ ι ο) (s : σ) (es : List ι) (e : ι) :
    M.outputs s (es ++ [e]) = M.outputs s es ++ M.emit s es e := by
  simp [outputs_append, outputs, emit]

/-- Several events as one. -/
def steps (M : Machine σ ι ο) (s : σ) (es : List ι) : σ × List ο := (M.run s es, M.outputs s es)

@[simp] theorem steps_nil (M : Machine σ ι ο) (s : σ) : M.steps s [] = (s, []) := rfl

theorem steps_cons (M : Machine σ ι ο) (s : σ) (e : ι) (es : List ι) :
    M.steps s (e :: es) =
      ((M.steps (M.step s e).1 es).1, (M.step s e).2 ++ (M.steps (M.step s e).1 es).2) := rfl

@[simp] theorem steps_singleton (M : Machine σ ι ο) (s : σ) (e : ι) : M.steps s [e] = M.step s e := by
  rw [steps_cons, steps_nil, List.append_nil]

/-- How many events of a history have found the machine in a state of interest. -/
def countAt (M : Machine σ ι ο) (s : σ) (p : σ → ι → Bool) : List ι → Nat
  | [] => 0
  | e :: es => (if p s e then 1 else 0) + countAt M (M.step s e).1 p es

theorem countAt_snoc (M : Machine σ ι ο) (s : σ) (p : σ → ι → Bool) (es : List ι) (e : ι) :
    M.countAt s p (es ++ [e]) = M.countAt s p es + if p (M.run s es) e then 1 else 0 := by
  induction es generalizing s with
  | nil => exact Nat.add_comm _ 0
  | cons x es ih =>
    have hr : M.run s (x :: es) = M.run (M.step s x).1 es := rfl
    simp only [List.cons_append, countAt, ih, hr, Nat.add_assoc]

/-- A number that each step raises by what it puts out of one kind. -/
theorem run_counts (M : Machine σ ι ο) {f : σ → Nat} {p : ο → Bool}
    (hstep : ∀ s e, f (M.step s e).1 = f s + (M.step s e).2.countP p) (s : σ) (es : List ι) :
    f (M.run s es) = f s + (M.outputs s es).countP p := by
  induction es generalizing s with
  | nil => rfl
  | cons e es ih =>
    have hr : M.run s (e :: es) = M.run (M.step s e).1 es := rfl
    rw [hr, ih, hstep, outputs, List.countP_append, Nat.add_assoc]

/-- What the events of a history have cost together. -/
def spent (M : Machine σ ι ο) (cost : σ → ι → Nat) (s : σ) : List ι → Nat
  | [] => 0
  | e :: es => cost s e + spent M cost (M.step s e).1 es

/-- A step that costs more than its share is paid for by a potential. -/
theorem spent_le (M : Machine σ ι ο) {cost : σ → ι → Nat} {potential : σ → Nat} {share : Nat} {I : σ → Prop}
    (hinv : ∀ s e, I s → I (M.step s e).1)
    (hstep : ∀ s e, I s → cost s e + potential (M.step s e).1 ≤ potential s + share) {s : σ} (hs : I s)
    (es : List ι) : M.spent cost s es + potential (M.run s es) ≤ potential s + share * es.length := by
  induction es generalizing s with
  | nil => simp [spent]
  | cons e es ih =>
    have hrest := ih (hinv s e hs)
    have hfirst := hstep s e hs
    have hr : M.run s (e :: es) = M.run (M.step s e).1 es := rfl
    rw [hr, spent, List.length_cons, Nat.mul_succ]
    omega

/-- The last item of interest put out so far. -/
def lastOutput {κ : Type*} (M : Machine σ ι ο) (s : σ) (f : ο → Option κ) (es : List ι) : Option κ :=
  ((M.outputs s es).filterMap f).getLast?

theorem lastOutput_snoc {κ : Type*} (M : Machine σ ι ο) (s : σ) (f : ο → Option κ) (es : List ι) (e : ι) :
    M.lastOutput s f (es ++ [e]) = ((M.emit s es e).filterMap f).getLast?.or (M.lastOutput s f es) := by
  rw [lastOutput, outputs_snoc, List.filterMap_append, List.getLast?_append]
  rfl

/-- The last item of interest was put out at some event, and none after it. -/
theorem lastOutput_eq_some {κ : Type*} {M : Machine σ ι ο} {s : σ} {f : ο → Option κ} {es : List ι} {k : κ}
    (h : M.lastOutput s f es = some k) :
    ∃ past e future, es = past ++ e :: future ∧ ((M.emit s past e).filterMap f).getLast? = some k ∧
      (M.outputs (M.run s (past ++ [e])) future).filterMap f = [] := by
  induction es using List.reverseRecOn with
  | nil => simp [lastOutput, outputs] at h
  | append_singleton es e ih =>
    rw [lastOutput_snoc] at h
    cases hlast : ((M.emit s es e).filterMap f).getLast? with
    | some k' =>
      obtain rfl : k' = k := by simpa [hlast] using h
      exact ⟨es, e, [], rfl, hlast, rfl⟩
    | none =>
      rw [hlast, Option.none_or] at h
      obtain ⟨past, e', future, rfl, hk, hnone⟩ := ih h
      refine ⟨past, e', future ++ [e], by simp, hk, ?_⟩
      have hquiet : (M.emit s (past ++ e' :: future) e).filterMap f = [] := List.getLast?_eq_none_iff.mp hlast
      have hsplit : past ++ e' :: future = (past ++ [e']) ++ future := by simp
      rw [emit, hsplit, run_append] at hquiet
      rw [outputs_snoc, List.filterMap_append, hnone, List.nil_append]
      exact hquiet

section

variable {τ κ ω : Type*} (N : Machine σ ι ο) (M : Machine τ κ ω) (f : σ → ι → List κ)

/-- The events that one machine passes on to another over a history. -/
def passedOn (s : σ) : List ι → List κ
  | [] => []
  | e :: es => f s e ++ passedOn (N.step s e).1 es

theorem passedOn_snoc (s : σ) (es : List ι) (e : ι) :
    N.passedOn f s (es ++ [e]) = N.passedOn f s es ++ f (N.run s es) e := by
  induction es generalizing s with
  | nil => simp [passedOn]
  | cons x es ih =>
    have hr : N.run s (x :: es) = N.run (N.step s x).1 es := rfl
    simp only [List.cons_append, passedOn, ih, hr, List.append_assoc]

variable {N M f}

/-- The state of the second machine is a part of the state of the first. -/
theorem run_passedOn {π : σ → τ} (hstep : ∀ s e, π (N.step s e).1 = M.run (π s) (f s e)) (s : σ)
    (es : List ι) : π (N.run s es) = M.run (π s) (N.passedOn f s es) := by
  induction es generalizing s with
  | nil => rfl
  | cons e es ih =>
    have hr : N.run s (e :: es) = N.run (N.step s e).1 es := rfl
    rw [hr, ih, hstep, passedOn, run_append]

theorem outputs_passedOn {π : σ → τ} {g : ο → Option ω}
    (hstep : ∀ s e, π (N.step s e).1 = M.run (π s) (f s e))
    (hout : ∀ s e, (N.step s e).2.filterMap g = M.outputs (π s) (f s e)) (s : σ) (es : List ι) :
    (N.outputs s es).filterMap g = M.outputs (π s) (N.passedOn f s es) := by
  induction es generalizing s with
  | nil => rfl
  | cons e es ih => rw [outputs, List.filterMap_append, hout, ih, hstep, passedOn, outputs_append]

/-- An event that was passed on comes from an event of the history. -/
theorem passedOn_split (hone : ∀ s e, (f s e).length ≤ 1) {s : σ} {es : List ι} {before after : List κ}
    {b : κ} (h : N.passedOn f s es = before ++ b :: after) :
    ∃ past e future, es = past ++ e :: future ∧ N.passedOn f s past = before ∧
      f (N.run s past) e = [b] ∧ N.passedOn f (N.run s (past ++ [e])) future = after := by
  induction es generalizing s before with
  | nil => simp [passedOn] at h
  | cons e es ih =>
    have hlength := hone s e
    rw [passedOn] at h
    cases hf : f s e with
    | nil =>
      rw [hf, List.nil_append] at h
      obtain ⟨past, e', future, rfl, hpast, hb, hfuture⟩ := ih h
      exact ⟨e :: past, e', future, rfl, by rw [passedOn, hf, hpast, List.nil_append], hb, hfuture⟩
    | cons b' rest =>
      have hrest : rest = [] := by
        rw [hf, List.length_cons] at hlength
        exact List.length_eq_zero_iff.mp (by omega)
      subst hrest
      rw [hf, List.singleton_append] at h
      cases before with
      | nil =>
        obtain ⟨rfl, rfl⟩ := List.cons.inj h
        exact ⟨[], e, es, rfl, rfl, hf, rfl⟩
      | cons first before =>
        obtain ⟨rfl, htail⟩ := List.cons.inj h
        obtain ⟨past, e', future, rfl, hpast, hb, hfuture⟩ := ih htail
        exact ⟨e :: past, e', future, rfl, by rw [passedOn, hf, hpast, List.singleton_append], hb, hfuture⟩

end

def AtEach (P : List ι → ι → Prop) (es : List ι) : Prop :=
  ∀ past e future, es = past ++ e :: future → P past e

theorem atEach_nil (P : List ι → ι → Prop) : AtEach P [] := by
  intro past e future h
  simp at h

theorem atEach_cons {P : List ι → ι → Prop} {e : ι} {es : List ι} :
    AtEach P (e :: es) ↔ P [] e ∧ AtEach (fun past => P (e :: past)) es := by
  constructor
  · intro h
    refine ⟨h [] e es rfl, fun past e' future he => ?_⟩
    exact h (e :: past) e' future (by rw [he, List.cons_append])
  · rintro ⟨hhead, htail⟩ past e' future he
    cases past with
    | nil => obtain ⟨rfl, _⟩ := List.cons.inj he; exact hhead
    | cons x past =>
      obtain ⟨rfl, hes⟩ := List.cons.inj he
      exact htail past e' future hes

theorem AtEach.append_left {P : List ι → ι → Prop} {es fs : List ι} (h : AtEach P (es ++ fs)) :
    AtEach P es := by
  intro past e future he
  exact h past e (future ++ fs) (by simp [he])

theorem AtEach.last {P : List ι → ι → Prop} {es : List ι} {e : ι} (h : AtEach P (es ++ [e])) :
    P es e := h es e [] rfl

instance decidableAtEach (P : List ι → ι → Prop) [∀ past e, Decidable (P past e)] :
    (es : List ι) → Decidable (AtEach P es)
  | [] => isTrue (atEach_nil P)
  | e :: es =>
    have := decidableAtEach (fun past => P (e :: past)) es
    decidable_of_iff (P [] e ∧ AtEach (fun past => P (e :: past)) es) atEach_cons.symm

/-- What holds of the empty history and survives every event holds of every
history. The invariant may speak of the history itself. -/
theorem run_invariant (M : Machine σ ι ο) {s : σ} {P : List ι → σ → Prop} (h₀ : P [] s)
    (hstep : ∀ es e, P es (M.run s es) → P (es ++ [e]) (M.step (M.run s es) e).1)
    (es : List ι) : P es (M.run s es) := by
  induction es using List.reverseRecOn with
  | nil => exact h₀
  | append_singleton es e ih => simpa only [run_snoc] using hstep es e ih

theorem run_invariant_of (M : Machine σ ι ο) {s : σ} {H : List ι → Prop} {P : List ι → σ → Prop}
    (hdrop : ∀ es e, H (es ++ [e]) → H es) (h₀ : P [] s)
    (hstep : ∀ es e, H (es ++ [e]) → P es (M.run s es) → P (es ++ [e]) (M.step (M.run s es) e).1)
    (es : List ι) (h : H es) : P es (M.run s es) := by
  induction es using List.reverseRecOn with
  | nil => exact h₀
  | append_singleton es e ih => simpa only [run_snoc] using hstep es e h (ih (hdrop es e h))

/-- What two states agree on and every event preserves, their runs agree on. -/
theorem run_related (M : Machine σ ι ο) {R : σ → σ → Prop}
    (hstep : ∀ s t e, R s t → R (M.step s e).1 (M.step t e).1) {s t : σ} (h : R s t) (es : List ι) :
    R (M.run s es) (M.run t es) := by
  induction es generalizing s t with
  | nil => exact h
  | cons e es ih => exact ih (hstep s t e h)

/-- Two machines that answer alike in related states, and go on to related ones,
answer alike over every history. -/
theorem run_simulates {τ : Type*} (M : Machine σ ι ο) (N : Machine τ ι ο) {R : σ → τ → Prop}
    (hstep : ∀ s t e, R s t → (M.step s e).2 = (N.step t e).2 ∧ R (M.step s e).1 (N.step t e).1)
    {s : σ} {t : τ} (h : R s t) (es : List ι) :
    M.outputs s es = N.outputs t es ∧ R (M.run s es) (N.run t es) := by
  induction es generalizing s t with
  | nil => exact ⟨rfl, h⟩
  | cons e es ih =>
    obtain ⟨hout, hnext⟩ := hstep s t e h
    obtain ⟨houts, hrun⟩ := ih hnext
    exact ⟨by rw [outputs, outputs, hout, houts], hrun⟩

/-- The same for histories that use up a limited supply of some kind of event. -/
theorem run_simulates_within {τ : Type*} (M : Machine σ ι ο) (N : Machine τ ι ο) {R : σ → τ → Prop}
    {p : ι → Bool} {used : τ → Nat} {limit : Nat}
    (hused : ∀ t e, used (N.step t e).1 ≤ used t + if p e then 1 else 0)
    (hstep : ∀ s t e, R s t → used t + (if p e then 1 else 0) ≤ limit →
      (M.step s e).2 = (N.step t e).2 ∧ R (M.step s e).1 (N.step t e).1)
    {s : σ} {t : τ} (h : R s t) (es : List ι) (hlimit : used t + es.countP p ≤ limit) :
    M.outputs s es = N.outputs t es ∧ R (M.run s es) (N.run t es) := by
  induction es generalizing s t with
  | nil => exact ⟨rfl, h⟩
  | cons e es ih =>
    rw [List.countP_cons] at hlimit
    have hnow := hused t e
    obtain ⟨hout, hnext⟩ := hstep s t e h (by omega)
    obtain ⟨houts, hrun⟩ := ih hnext (by omega)
    exact ⟨by rw [outputs, outputs, hout, houts], hrun⟩

/-- A machine that puts out at most one item of interest an event puts these
items out at strictly increasing positions of the history. -/
theorem outputs_positions {κ : Type*} (M : Machine σ ι ο) (s : σ) (f : ο → Option κ)
    {Q : List ι → ι → κ → Prop}
    (hone : ∀ es e, ((M.emit s es e).filterMap f).length ≤ 1)
    (hQ : ∀ es e k, k ∈ (M.emit s es e).filterMap f → Q es e k) (es : List ι) :
    ∃ positions : List Nat, positions.Pairwise (· < ·) ∧ (∀ i ∈ positions, i < es.length) ∧
      List.Forall₂ (fun i k => ∃ past e future, es = past ++ e :: future ∧ past.length = i ∧ Q past e k)
        positions ((M.outputs s es).filterMap f) := by
  induction es using List.reverseRecOn with
  | nil => exact ⟨[], .nil, by simp, .nil⟩
  | append_singleton es e ih =>
    obtain ⟨positions, hlt, hbound, hmatch⟩ := ih
    have hmatch' : List.Forall₂ (fun i k => ∃ past e' future, es ++ [e] = past ++ e' :: future ∧
        past.length = i ∧ Q past e' k) positions ((M.outputs s es).filterMap f) :=
      hmatch.imp fun i k ⟨past, e', future, he, hi, hq⟩ =>
        ⟨past, e', future ++ [e], by simp [he], hi, hq⟩
    rw [outputs_snoc, List.filterMap_append]
    have hlen := hone es e
    cases hout : (M.emit s es e).filterMap f with
    | nil =>
      refine ⟨positions, hlt, fun i hi => ?_, by simpa using hmatch'⟩
      have := hbound i hi
      simp only [List.length_append, List.length_singleton]
      omega
    | cons k ks =>
      have hks : ks = [] := by
        rw [hout, List.length_cons] at hlen
        exact List.length_eq_zero_iff.mp (by omega)
      refine ⟨positions ++ [es.length], ?_, ?_, ?_⟩
      · refine List.pairwise_append.mpr ⟨hlt, List.pairwise_singleton _ _, fun i hi j hj => ?_⟩
        rw [List.mem_singleton.mp hj]
        exact hbound i hi
      · intro i hi
        rcases List.mem_append.mp hi with h | h
        · have := hbound i h
          simp only [List.length_append, List.length_singleton]
          omega
        · simp [List.mem_singleton.mp h]
      · have hk := hQ es e k (by simp [hout])
        rw [hks]
        exact List.rel_append hmatch' (.cons ⟨es, e, [], rfl, rfl, hk⟩ .nil)

end Machine
