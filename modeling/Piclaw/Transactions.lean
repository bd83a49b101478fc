import Mathlib

/-!
# Transactions and their runs

A transaction that throws has no effect, so its result is an `Except`; `bind_eq_ok` and
`require_eq_ok` read a successful one statement by statement.

A system that answers calls one after another is a step function on states and calls. `run` folds
it over a list of calls, `Along` asks a condition of every call of a run in the state where the
call is made, and `occurrences` counts the calls with which an event happens. The lemmas lift what
one step does to what a run does.
-/

namespace Relational
variable {ε α β σ ι : Type}

theorem bind_eq_ok {x : Except ε α} {f : α → Except ε β} {b : β} :
    x >>= f = .ok b ↔ ∃ a, x = .ok a ∧ f a = .ok b := by
  cases x with
  | error e =>
    constructor
    · intro h
      cases h
    · rintro ⟨a, h, -⟩
      cases h
  | ok a =>
    constructor
    · intro h
      exact ⟨a, rfl, h⟩
    · rintro ⟨a', h, hb⟩
      cases h
      exact hb

theorem ok_bind (a : α) (f : α → Except ε β) : (Except.ok a >>= f) = f a := rfl

/-- A statement without a result throws `e`. -/
def require (e : ε) : Option α → Except ε α
  | some a => .ok a
  | none => .error e

theorem require_eq_ok {e : ε} {x : Option α} {a : α} : require e x = .ok a ↔ x = some a := by
  cases x with
  | none => simp [require]
  | some b => simp [require]

theorem require_bind_eq_ok {e : ε} {x : Option α} {g : α → β} {b : β} :
    (require e x >>= fun a => .ok (g a)) = .ok b ↔ ∃ a, x = some a ∧ b = g a := by
  rw [bind_eq_ok]
  constructor
  · rintro ⟨a, ha, hb⟩
    cases hb
    exact ⟨a, require_eq_ok.mp ha, rfl⟩
  · rintro ⟨a, rfl, rfl⟩
    exact ⟨a, rfl, rfl⟩

section Matching
variable {α' β' : Type}

/-- Both transactions throw the same fault or both return, with results related by `R`. -/
def Matches (R : α → β → Prop) : Except ε α → Except ε β → Prop
  | .ok a, .ok b => R a b
  | .error e, .error e' => e = e'
  | _, _ => False

variable {R : α → β → Prop} {R' : α' → β' → Prop}

theorem Matches.bind {x : Except ε α} {y : Except ε β} {f : α → Except ε α'} {g : β → Except ε β'}
    (h : Matches R x y) (hfg : ∀ a b, R a b → Matches R' (f a) (g b)) :
    Matches R' (x >>= f) (y >>= g) := by
  cases x with
  | error e =>
    cases y with
    | error e' => exact h
    | ok b => exact h.elim
  | ok a =>
    cases y with
    | error e' => exact h.elim
    | ok b => exact hfg a b h

theorem matches_require (e : ε) {x : Option α} {y : Option β} (h : Option.Rel R x y) :
    Matches R (require e x) (require e y) := by
  cases h with
  | none => rfl
  | some hab => exact hab

/-- A transaction that does not read the state matches itself. -/
theorem matches_same (x : Except ε α) : Matches Eq x x := by
  cases x with
  | error e => rfl
  | ok a => rfl

end Matching

section Runs
variable (step : σ → ι → σ)

def run (s : σ) (calls : List ι) : σ := calls.foldl step s

@[simp] theorem run_nil (s : σ) : run step s [] = s := rfl

@[simp] theorem run_cons (s : σ) (call : ι) (calls : List ι) :
    run step s (call :: calls) = run step (step s call) calls := rfl

theorem run_append (s : σ) (first rest : List ι) :
    run step s (first ++ rest) = run step (run step s first) rest :=
  List.foldl_append

def Along (C : σ → ι → Prop) : σ → List ι → Prop
  | _, [] => True
  | s, call :: calls => C s call ∧ Along C (step s call) calls

def occurrences (E : σ → ι → Prop) [∀ s call, Decidable (E s call)] : σ → List ι → ℕ
  | _, [] => 0
  | s, call :: calls => (if E s call then 1 else 0) + occurrences E (step s call) calls

variable {step} {C : σ → ι → Prop}

theorem along_true (s : σ) (calls : List ι) : Along step (fun _ _ => True) s calls := by
  induction calls generalizing s with
  | nil => trivial
  | cons call calls ih => exact ⟨trivial, ih _⟩

theorem along_append {s : σ} {first rest : List ι} :
    Along step C s (first ++ rest) ↔ Along step C s first ∧ Along step C (run step s first) rest := by
  induction first generalizing s with
  | nil => simp [Along]
  | cons call first ih => simp only [List.cons_append, Along, run_cons, ih, and_assoc]

/-- An invariant of every permitted step is an invariant of every permitted run. -/
theorem run_invariant {I : σ → Prop} (hstep : ∀ s call, I s → C s call → I (step s call)) {s : σ}
    {calls : List ι} (hs : I s) (hC : Along step C s calls) : I (run step s calls) := by
  induction calls generalizing s with
  | nil => exact hs
  | cons call calls ih => exact ih (hstep s call hs hC.1) hC.2

/-- What every permitted step from an invariant state does, every step of a permitted run does. -/
theorem along_of_invariant {I : σ → Prop} {D : σ → ι → Prop}
    (hstep : ∀ s call, I s → C s call → I (step s call))
    (hdone : ∀ s call, I s → C s call → D s call) {s : σ} {calls : List ι} (hs : I s)
    (hC : Along step C s calls) : Along step D s calls := by
  induction calls generalizing s with
  | nil => trivial
  | cons call calls ih => exact ⟨hdone s call hs hC.1, ih (hstep s call hs hC.1) hC.2⟩

/-- A preorder that contains every permitted step from an invariant state relates the ends of
every permitted run. -/
theorem run_relates {I : σ → Prop} {R : σ → σ → Prop} (hrefl : ∀ s, R s s)
    (htrans : ∀ s t u, R s t → R t u → R s u)
    (hinv : ∀ s call, I s → C s call → I (step s call))
    (hstep : ∀ s call, I s → C s call → R s (step s call)) {s : σ} {calls : List ι} (hs : I s)
    (hC : Along step C s calls) : R s (run step s calls) := by
  induction calls generalizing s with
  | nil => exact hrefl s
  | cons call calls ih =>
    exact htrans _ _ _ (hstep s call hs hC.1) (ih (hinv s call hs hC.1) hC.2)

/-- Two runs of the same calls side by side. -/
def twin (step : σ → ι → σ) (p : σ × σ) (call : ι) : σ × σ := (step p.1 call, step p.2 call)

theorem run_twin (s t : σ) (calls : List ι) :
    run (twin step) (s, t) calls = (run step s calls, run step t calls) := by
  induction calls generalizing s t with
  | nil => rfl
  | cons call calls ih => exact ih (step s call) (step t call)

/-- An event that can happen only where `A` holds, and after which `A` never holds again, happens
at most once. -/
theorem occurrences_le_one {I A : σ → Prop} {E : σ → ι → Prop} [∀ s call, Decidable (E s call)]
    (hinv : ∀ s call, I s → C s call → I (step s call))
    (honly : ∀ s call, I s → C s call → E s call → A s)
    (hspent : ∀ s call, I s → C s call → E s call → ¬ A (step s call))
    (hkeep : ∀ s call, I s → C s call → ¬ A s → ¬ A (step s call)) {s : σ} {calls : List ι}
    (hs : I s) (hC : Along step C s calls) :
    occurrences step E s calls ≤ 1 ∧ (¬ A s → occurrences step E s calls = 0) := by
  induction calls generalizing s with
  | nil => exact ⟨Nat.zero_le _, fun _ => rfl⟩
  | cons call calls ih =>
    have hrest := ih (hinv s call hs hC.1) hC.2
    unfold occurrences
    by_cases hE : E s call
    · have hzero := hrest.2 (hspent s call hs hC.1 hE)
      rw [if_pos hE, hzero]
      exact ⟨Nat.le_refl _, fun hA => absurd (honly s call hs hC.1 hE) hA⟩
    · rw [if_neg hE, Nat.zero_add]
      exact ⟨hrest.1, fun hA => hrest.2 (hkeep s call hs hC.1 hA)⟩

end Runs

end Relational
