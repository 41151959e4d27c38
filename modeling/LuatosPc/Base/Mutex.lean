import Mathlib

/-!
# Threads, mutexes and deadlock

Threads that lock and unlock mutexes, at the granularity of a single lock or
unlock.  Where a thread stands is its program counter; a discipline says, of a
program counter, which mutex the thread waits for there and which ones it holds.

* `LockState`, `acquire`, `release`, `move` — who stands where, who holds what,
  and the three moves of a thread.
* `Discipline`, `Consistent` — the recorded holders are those the program
  counters claim; each move keeps it.
* `Waits`, `Deadlocked` — a set of threads each waiting for a mutex that another
  thread of the set holds; `deadlocked_of_waits` — two that wait for each other.
* `Deadlocked.nested` — in a deadlock some thread holds one mutex and waits for a
  second one, which a thread holds that waits for a third.
-/

namespace LuatosPc

/-- Where each thread stands and who holds each mutex. -/
structure LockState (T L P : Type*) where
  pc : T → P
  holder : L → Option T

/-- What a program counter says about the mutexes. -/
structure Discipline (L P : Type*) where
  /-- The mutex a thread waits for. -/
  wants : P → Option L
  /-- The mutexes a thread holds. -/
  holds : P → List L

namespace LockState

variable {T L P : Type*} (D : Discipline L P)

/-- The holders on record are those the program counters claim. -/
def Consistent (σ : LockState T L P) : Prop :=
  ∀ m t, σ.holder m = some t ↔ m ∈ D.holds (σ.pc t)

/-- Thread `t` waits for a mutex that the other thread `u` holds. -/
def Waits (σ : LockState T L P) (t u : T) : Prop :=
  t ≠ u ∧ ∃ m, D.wants (σ.pc t) = some m ∧ σ.holder m = some u

/-- A set of threads each waiting for a mutex held by another thread of the
set. -/
def Deadlocked (σ : LockState T L P) : Prop :=
  ∃ S : Set T, S.Nonempty ∧ ∀ t ∈ S, ∃ u ∈ S, Waits D σ t u

variable {D} {σ : LockState T L P}

theorem deadlocked_of_waits {t u : T} (h₁ : Waits D σ t u) (h₂ : Waits D σ u t) :
    Deadlocked D σ := by
  refine ⟨{t, u}, ⟨t, by simp⟩, ?_⟩
  intro x hx
  rcases hx with rfl | hx
  · exact ⟨u, by simp, h₁⟩
  · rw [Set.mem_singleton_iff.1 hx]
    exact ⟨t, by simp, h₂⟩

/-- **A deadlock needs nested locks.**  Some thread in it holds one mutex and
waits for another, whose holder waits in turn. -/
theorem Deadlocked.nested (h : Deadlocked D σ) (hc : Consistent D σ) :
    ∃ u w m m' m'', m ∈ D.holds (σ.pc u) ∧ D.wants (σ.pc u) = some m' ∧
      m' ∈ D.holds (σ.pc w) ∧ D.wants (σ.pc w) = some m'' := by
  obtain ⟨S, ⟨t, ht⟩, hS⟩ := h
  obtain ⟨u, hu, -, m, -, hm⟩ := hS t ht
  obtain ⟨w, hw, -, m', hwant, hm'⟩ := hS u hu
  obtain ⟨x, -, -, m'', hwant', -⟩ := hS w hw
  exact ⟨u, w, m, m', m'', (hc m u).1 hm, hwant, (hc m' w).1 hm', hwant'⟩

/-! ## The moves of a thread -/

variable [DecidableEq T]

/-- Thread `t` goes on at `p`. -/
def move (σ : LockState T L P) (t : T) (p : P) : LockState T L P :=
  ⟨Function.update σ.pc t p, σ.holder⟩

theorem Consistent.move (hc : Consistent D σ) {t : T} {p : P}
    (hp : D.holds p = D.holds (σ.pc t)) : Consistent D (σ.move t p) := by
  intro m u
  simp only [LockState.move, Function.update_apply]
  by_cases hu : u = t
  · subst hu
    rw [if_pos rfl, hp]
    exact hc m u
  · rw [if_neg hu]
    exact hc m u

variable [DecidableEq L]

/-- Thread `t` locks `m` and goes on at `p`. -/
def acquire (σ : LockState T L P) (t : T) (m : L) (p : P) : LockState T L P :=
  ⟨Function.update σ.pc t p, Function.update σ.holder m (some t)⟩

/-- Thread `t` unlocks `m` and goes on at `p`. -/
def release (σ : LockState T L P) (t : T) (m : L) (p : P) : LockState T L P :=
  ⟨Function.update σ.pc t p, Function.update σ.holder m none⟩

theorem Consistent.acquire (hc : Consistent D σ) {t : T} {m : L} {p : P} (hfree : σ.holder m = none)
    (hp : ∀ m', m' ∈ D.holds p ↔ m' = m ∨ m' ∈ D.holds (σ.pc t)) :
    Consistent D (σ.acquire t m p) := by
  intro m' u
  have hother : ∀ v, m ∉ D.holds (σ.pc v) := by
    intro v hv
    rw [(hc m v).2 hv] at hfree
    exact absurd hfree (by simp)
  simp only [LockState.acquire, Function.update_apply]
  by_cases hu : u = t
  · subst hu
    rw [if_pos rfl, hp]
    by_cases hm : m' = m
    · simp [hm]
    · rw [if_neg hm, hc m' u]
      simp [hm]
  · rw [if_neg hu]
    by_cases hm : m' = m
    · subst hm
      simp [Ne.symm hu, hother u]
    · rw [if_neg hm]
      exact hc m' u

theorem Consistent.release (hc : Consistent D σ) {t : T} {m : L} {p : P}
    (hm : m ∈ D.holds (σ.pc t))
    (hp : ∀ m', m' ∈ D.holds p ↔ m' ≠ m ∧ m' ∈ D.holds (σ.pc t)) :
    Consistent D (σ.release t m p) := by
  intro m' u
  have hholder := (hc m t).2 hm
  simp only [LockState.release, Function.update_apply]
  by_cases hu : u = t
  · subst hu
    rw [if_pos rfl, hp]
    by_cases hm' : m' = m
    · simp [hm']
    · rw [if_neg hm', hc m' u]
      simp [hm']
  · rw [if_neg hu]
    by_cases hm' : m' = m
    · subst hm'
      rw [if_pos rfl]
      simp only [reduceCtorEq, false_iff]
      intro hmu
      rw [(hc m' u).2 hmu] at hholder
      exact hu (Option.some.inj hholder)
    · rw [if_neg hm']
      exact hc m' u

end LockState

end LuatosPc
