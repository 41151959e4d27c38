import Mathlib.Tactic

/-!
# Pieces of a sequence

A long sequence is cut into pieces, each with the place where it starts; they travel by
themselves and are put together again.  Who collects them keeps a list in the order of
their places.

* `Apart`, `Spread` — one piece lies wholly before another; a list in which each lies
  before the next.
* `Abut`, `Tiling` — one piece ends where the other starts; a list without a hole from
  one place to another.
* `Of` — a piece of the sequence `d`.
* `Tiling.join_eq` — pieces of `d` that tile it are, put together, `d`.
* `Spread.eq_of_mem_iff` — two spread lists of the same pieces are the same list, so who
  has collected every piece of a cutting has the cutting.
-/

namespace LuatosPc

/-- A piece of a sequence: where it starts, its elements, and what is known of it
besides. -/
structure Piece (α τ : Type*) where
  /-- The place of its first element. -/
  start : Nat
  /-- Its elements. -/
  data : List α
  /-- What else is kept with it. -/
  tag : τ
  deriving DecidableEq

namespace Piece

variable {α τ : Type*} {d : List α} {p q r : Piece α τ} {l l' : List (Piece α τ)} {a b c : Nat}

/-- The place after its last element. -/
def stop (p : Piece α τ) : Nat := p.start + p.data.length

theorem start_le_stop (p : Piece α τ) : p.start ≤ p.stop := Nat.le_add_right _ _

/-- `p` lies before `q`. -/
def Apart (p q : Piece α τ) : Prop := p.start < q.start ∧ p.stop ≤ q.start

instance (p q : Piece α τ) : Decidable (Apart p q) := inferInstanceAs (Decidable (_ ∧ _))

theorem Apart.trans (h : Apart p q) (h' : Apart q r) : Apart p r :=
  ⟨h.1.trans h'.1, h.2.trans h'.1.le⟩

theorem not_apart_self (p : Piece α τ) : ¬Apart p p := fun h => Nat.lt_irrefl _ h.1

/-- Each piece lies before those after it. -/
def Spread (l : List (Piece α τ)) : Prop := l.Pairwise Apart

theorem spread_append_cons :
    Spread (l ++ p :: l') ↔ Spread (l ++ l') ∧ (∀ q ∈ l, Apart q p) ∧ ∀ q ∈ l', Apart p q := by
  simp only [Spread, List.pairwise_append, List.pairwise_cons, List.mem_cons]
  constructor
  · rintro ⟨hl, ⟨hp, hl'⟩, hcross⟩
    exact ⟨⟨hl, hl', fun x hx y hy => hcross x hx y (.inr hy)⟩, fun q hq => hcross q hq p (.inl rfl), hp⟩
  · rintro ⟨⟨hl, hl', hcross⟩, hbefore, hafter⟩
    refine ⟨hl, ⟨hafter, hl'⟩, ?_⟩
    rintro x hx y (rfl | hy)
    · exact hbefore x hx
    · exact hcross x hx y hy

theorem Spread.nodup (h : Spread l) : l.Nodup := by
  refine List.Pairwise.imp ?_ h
  rintro x _ hxy rfl
  exact not_apart_self x hxy

/-- Of two pieces in a spread list one lies before the other. -/
theorem Spread.apart_or_apart (h : Spread l) (hp : p ∈ l) (hq : q ∈ l) (hne : p ≠ q) :
    Apart p q ∨ Apart q p := by
  have hsymm : Std.Symm fun x y : Piece α τ => Apart x y ∨ Apart y x := ⟨fun _ _ => Or.symm⟩
  have hpair : l.Pairwise fun x y => Apart x y ∨ Apart y x := h.imp Or.inl
  exact hpair.forall hp hq hne

/-- A spread list is settled by what is in it. -/
theorem Spread.eq_of_mem_iff (hl : Spread l) (hl' : Spread l') (h : ∀ p, p ∈ l ↔ p ∈ l') : l = l' := by
  have hperm : l.Perm l' := (List.perm_ext_iff_of_nodup hl.nodup hl'.nodup).mpr h
  exact hperm.eq_of_pairwise (fun x y _ _ hxy hyx => absurd (hxy.trans hyx) (not_apart_self x)) hl hl'

/-! ## Without a hole -/

/-- `q` starts where `p` ends. -/
def Abut (p q : Piece α τ) : Prop := p.stop = q.start

instance (p q : Piece α τ) : Decidable (Abut p q) := inferInstanceAs (Decidable (_ = _))

/-- The pieces lead from place `a` to place `b` without a hole. -/
def Tiling : List (Piece α τ) → Nat → Nat → Prop
  | [], a, b => a = b
  | p :: l, a, b => p.start = a ∧ Tiling l p.stop b

theorem tiling_append : Tiling (l ++ l') a c ↔ ∃ b, Tiling l a b ∧ Tiling l' b c := by
  induction l generalizing a with
  | nil => simp [Tiling]
  | cons p l ih => simp [Tiling, ih, and_assoc]

theorem tiling_concat : Tiling (l ++ [p]) a c ↔ Tiling l a p.start ∧ p.stop = c := by
  rw [tiling_append]
  constructor
  · rintro ⟨_, hl, rfl, hstop⟩
    exact ⟨hl, hstop⟩
  · rintro ⟨hl, hstop⟩
    exact ⟨_, hl, rfl, hstop⟩

theorem Tiling.le (h : Tiling l a b) : a ≤ b := by
  induction l generalizing a with
  | nil => exact h.le
  | cons p l ih =>
    obtain ⟨rfl, hl⟩ := h
    exact p.start_le_stop.trans (ih hl)

theorem Tiling.le_start (h : Tiling l a b) : ∀ p ∈ l, a ≤ p.start ∧ p.stop ≤ b := by
  induction l generalizing a with
  | nil => simp
  | cons q l ih =>
    obtain ⟨rfl, hl⟩ := h
    rintro p (_ | ⟨_, hp⟩)
    · exact ⟨le_rfl, hl.le⟩
    · obtain ⟨hle, hstop⟩ := ih hl p hp
      exact ⟨q.start_le_stop.trans hle, hstop⟩

theorem Tiling.exists_stop (h : Tiling l a b) (hne : l ≠ []) : ∃ p ∈ l, p.stop = b := by
  induction l generalizing a with
  | nil => exact absurd rfl hne
  | cons p l ih =>
    obtain ⟨-, hl⟩ := h
    cases l with
    | nil => exact ⟨p, .head _, hl⟩
    | cons q l =>
      obtain ⟨x, hx, hstop⟩ := ih hl (List.cons_ne_nil q l)
      exact ⟨x, .tail _ hx, hstop⟩

/-- The pieces of a cutting are spread if none of them is empty. -/
theorem Tiling.spread (h : Tiling l a b) (hne : ∀ p ∈ l, p.data ≠ []) : Spread l := by
  induction l generalizing a with
  | nil => exact List.Pairwise.nil
  | cons q l ih =>
    obtain ⟨rfl, hl⟩ := h
    refine List.pairwise_cons.mpr ⟨fun p hp => ?_, ih hl fun p hp => hne p (.tail _ hp)⟩
    have hpos := List.length_pos_of_ne_nil (hne q (.head _))
    have hle := (hl.le_start p hp).1
    exact ⟨by unfold stop at hle; omega, hle⟩

/-- A list whose neighbours abut is a tiling from its first piece on. -/
theorem exists_tiling_of_isChain (h : (p :: l).IsChain Abut) : ∃ b, Tiling (p :: l) p.start b := by
  induction l generalizing p with
  | nil => exact ⟨p.stop, rfl, rfl⟩
  | cons q l ih =>
    rw [List.isChain_cons_cons] at h
    obtain ⟨habut, hl⟩ := h
    obtain ⟨b, hb⟩ := ih hl
    exact ⟨b, rfl, habut ▸ hb⟩

theorem Tiling.isChain (h : Tiling l a b) : l.IsChain Abut := by
  induction l generalizing a with
  | nil => exact List.isChain_nil
  | cons p l ih =>
    obtain ⟨rfl, hl⟩ := h
    refine List.isChain_cons.mpr ⟨?_, ih hl⟩
    intro q hq
    cases l with
    | nil => simp at hq
    | cons q' l =>
      obtain rfl : q' = q := by simpa using hq
      exact hl.1.symm

/-! ## Pieces of one sequence -/

/-- `p` is a piece of `d`. -/
structure Of (d : List α) (p : Piece α τ) : Prop where
  /-- It lies within `d`. -/
  stop_le : p.stop ≤ d.length
  /-- Its elements are those of `d` there. -/
  data_eq : p.data = (d.drop p.start).take p.data.length

/-- Pieces of `d` without a hole are, put together, a stretch of `d`. -/
theorem Tiling.flatMap_data (h : Tiling l a b) (hof : ∀ p ∈ l, Of d p) :
    l.flatMap data = (d.drop a).take (b - a) := by
  induction l generalizing a with
  | nil =>
    obtain rfl : a = b := h
    simp
  | cons p l ih =>
    have hle := h.le
    obtain ⟨rfl, hl⟩ := h
    have hp := hof p (.head _)
    have hsplit : b - p.start = p.data.length + (b - p.stop) := by
      have := hl.le
      unfold stop at *
      omega
    rw [List.flatMap_cons, ih hl fun q hq => hof q (.tail _ hq), hsplit, List.take_add,
      List.drop_drop, ← hp.data_eq]
    rfl

/-- Pieces of `d` that tile it are, put together, `d`. -/
theorem Tiling.join_eq (h : Tiling l 0 d.length) (hof : ∀ p ∈ l, Of d p) : l.flatMap data = d := by
  rw [h.flatMap_data hof, List.drop_zero, Nat.sub_zero, List.take_length]

/-- A piece that ends before place `n` is a piece of the first `n` elements. -/
theorem Of.take {n : Nat} (h : Of d p) (hn : p.stop ≤ n) (hle : n ≤ d.length) : Of (d.take n) p := by
  refine ⟨by rwa [List.length_take, Nat.min_eq_left hle], ?_⟩
  have hmin : min p.data.length (n - p.start) = p.data.length := by
    unfold stop at hn
    omega
  rw [List.drop_take, List.take_take, hmin]
  exact h.data_eq

instance [DecidableEq α] (d : List α) (p : Piece α τ) : Decidable (Of d p) :=
  decidable_of_iff (p.stop ≤ d.length ∧ p.data = (d.drop p.start).take p.data.length)
    ⟨fun h => ⟨h.1, h.2⟩, fun h => ⟨h.stop_le, h.data_eq⟩⟩

/-! ## Pieces collected from a cutting -/

/-- The piece alone. -/
def bare (p : Piece α τ) : Piece α Unit := ⟨p.start, p.data, ()⟩

/-- A cutting of a sequence into pieces. -/
structure Cutting (d : List α) (cut : List (Piece α Unit)) : Prop where
  tiling : Tiling cut 0 d.length
  nonempty : ∀ p ∈ cut, p.data ≠ []

variable {cut : List (Piece α Unit)}

/-- Without its last piece a cutting is one of what stands in front of that piece. -/
theorem Cutting.front {last : Piece α Unit} (hcut : Cutting d (cut ++ [last])) :
    Cutting (d.take last.start) cut ∧ (d.take last.start).length = last.start ∧
      last.stop = d.length := by
  obtain ⟨htiling, hend⟩ := tiling_concat.1 hcut.tiling
  have hlen : (d.take last.start).length = last.start := by
    rw [List.length_take, ← hend]
    exact Nat.min_eq_left last.start_le_stop
  refine ⟨⟨hlen.symm ▸ htiling, fun p hp => ?_⟩, hlen, hend⟩
  exact hcut.nonempty p (List.mem_append_left _ hp)

/-- Who holds every piece of a cutting, in order, holds the cutting. -/
theorem Cutting.map_bare_eq (hcut : Cutting d cut) (hl : Spread l)
    (h : ∀ c, c ∈ l.map bare ↔ c ∈ cut) : l.map bare = cut :=
  Spread.eq_of_mem_iff (List.pairwise_map.mpr hl) (hcut.tiling.spread hcut.nonempty) h

end Piece

end LuatosPc
