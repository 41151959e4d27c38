import LuatosPc.Base.Program

/-!
# Handles that are taken and given back

A program works with a library whose functions hand out handles, want handles, and take
them back.  A call that wants a handle that is not held, or gives one back out of turn, is
an error of the program.

* `Contract` — what every function of the library wants, hands out and takes back.
* `Session` — the handles that are held, the youngest first, and the calls so far; `call`,
  `calls` — calls of the library.
* `Leads view m H b H' out` — with the handles `H` held, the program returns `b` without an
  error and holds `H'`; `out` is what `view` sees of its calls.
* `Leads.pure`, `Leads.bind`, `Leads.call`, `Leads.calls` and, for calls of which nothing is
  seen, `Leads.quietly` — how such facts are put together.
-/

namespace LuatosPc.Brackets

variable {κ η ω β γ : Type}

/-- What the functions of a library do with handles. -/
structure Contract (κ η : Type) where
  /-- There is a handle like this, one for each condition. -/
  needs : κ → List (η → Bool)
  /-- This handle is taken back: it must be the youngest one. -/
  gives : κ → Option η
  /-- This handle is handed out. -/
  takes : κ → Option η

/-- The handles after a call. -/
def Contract.effect [DecidableEq η] (C : Contract κ η) (c : κ) (held : List η) :
    Option (List η) :=
  if (C.needs c).all held.any then
    match C.gives c with
    | none => some ((C.takes c).toList ++ held)
    | some h =>
      match held with
      | [] => none
      | h' :: rest => if h = h' then some ((C.takes c).toList ++ rest) else none
  else none

structure Session (κ η : Type) where
  held : List η
  log : List κ

variable [DecidableEq η] (C : Contract κ η)

/-- A call, which is the error itself if it must not be made. -/
def call (c : κ) : Prog κ (Session κ η) Unit := fun s =>
  match C.effect c s.held with
  | none => .error c
  | some held => .ok ((), ⟨held, s.log ++ [c]⟩)

/-- One call after the other. -/
def calls : List κ → Prog κ (Session κ η) Unit
  | [] => pure ()
  | c :: cs => do
    call C c
    calls cs

/-- The handles after several calls. -/
def Contract.effects : List κ → List η → Option (List η)
  | [], held => some held
  | c :: cs, held => (C.effect c held).bind (effects cs)

omit [DecidableEq η] in
/-- The program takes the handles from `H` to `H'`, returns `b` and makes calls of which
`view` sees `out`. -/
def Leads (view : κ → Option ω) (m : Prog κ (Session κ η) β) (H : List η) (b : β) (H' : List η)
    (out : List ω) : Prop :=
  ∀ log, ∃ more, Yields m ⟨H, log⟩ b ⟨H', log ++ more⟩ ∧ more.filterMap view = out

namespace Leads

variable {C} {view : κ → Option ω} {m : Prog κ (Session κ η) β} {k : β → Prog κ (Session κ η) γ}
  {H H' H'' : List η} {b : β} {c : γ} {out out' : List ω}

omit [DecidableEq η] in
theorem pure (b : β) (H : List η) :
    Leads view (Pure.pure b : Prog κ (Session κ η) β) H b H [] :=
  fun log => ⟨[], by rw [List.append_nil]; exact Yields.pure b _, rfl⟩

omit [DecidableEq η] in
theorem bind (hm : Leads view m H b H' out) (hk : Leads view (k b) H' c H'' out') :
    Leads view (m >>= k) H c H'' (out ++ out') := by
  intro log
  obtain ⟨more, hy, hout⟩ := hm log
  obtain ⟨more', hy', hout'⟩ := hk (log ++ more)
  refine ⟨more ++ more', ?_, ?_⟩
  · rw [← List.append_assoc]
    exact hy.bind hy'
  · rw [List.filterMap_append, hout, hout']

omit [DecidableEq η] in
/-- A program of which nothing is seen, and then another one. -/
theorem quietly (hm : Leads view m H b H' []) (hk : Leads view (k b) H' c H'' out) :
    Leads view (m >>= k) H c H'' out :=
  hm.bind hk

theorem call {x : κ} (h : C.effect x H = some H') :
    Leads view (call C x) H () H' (view x).toList := by
  intro log
  refine ⟨[x], ?_, ?_⟩
  · simp only [Yields, Brackets.call, h]
  · cases hx : view x <;> simp [hx]

theorem calls {xs : List κ} (h : C.effects xs H = some H') :
    Leads view (calls C xs) H () H' (xs.filterMap view) := by
  induction xs generalizing H with
  | nil =>
    obtain rfl := Option.some.inj h
    exact pure () H
  | cons x xs ih =>
    obtain ⟨held, hx, hxs⟩ := Option.bind_eq_some_iff.1 h
    have hall : Leads view (Brackets.calls C (x :: xs)) H () H'
        ((view x).toList ++ xs.filterMap view) := (call hx).bind (ih hxs)
    cases hv : view x <;> simpa [hv, List.filterMap_cons] using hall

end Leads

end LuatosPc.Brackets
