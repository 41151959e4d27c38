import LuatosPc.Base.Machine
import LuatosPc.Rtos.Queue

/-!
# Freeing memory of the pool

The model of `luat_heap_opt_init`, `luat_heap_free` and `luat_heap_opt_free` of
`luat_malloc_mini.c`: the system's memory comes from a pool of 1 MiB that `malloc` has placed
anywhere, and a pointer is given back to the pool if it looks like one into it.

* `luatHeapOptInit`, `luatHeapFree`, `luatHeapOptFree` — the functions of the source.
* `Act`, `step`, `machine` — any sequence of calls, with the addresses that `malloc` chooses.
* `Fits`, `pool_fits` — where the pool is.
* `released_iff` — the test, in terms of addresses modulo `2 ^ 32`.
* `heap_free_iff` — for which pointers, and for which pools, the test is right.
-/

namespace LuatosPc.Heap

open LuatosPc.Rtos

/-- A pointer. -/
abbrev Ptr (w : PtrSize) := BitVec (8 * w.bytes)

/-- `LUAT_HEAP_TYPE_E`. -/
inductive HeapType
  | psram
  | sram
  | other
  deriving DecidableEq, Repr

/-- The static variables `psram_ptr` and `sram_ptr`; zero is `NULL`. -/
structure State (w : PtrSize) where
  psramPtr : Ptr w
  sramPtr : Ptr w

variable {w : PtrSize}

/-! ## The functions of the source -/

/-- `luat_heap_opt_init`, where `malloc` returns `placed`. -/
def luatHeapOptInit (s : State w) (type : HeapType) (placed : Ptr w) : State w :=
  if type = .psram ∧ s.psramPtr = 0 then { s with psramPtr := placed }
  else if type = .sram ∧ s.sramPtr = 0 then { s with sramPtr := placed }
  else s

/-- `luat_heap_free`: the pointer that is passed to `luat_brel`, if any is. -/
def luatHeapFree (s : State w) (ptr : Ptr w) : Option (Ptr w) :=
  if ptr = 0 then none
  else
    let addr : BitVec 32 := ptr.setWidth 32
    if addr < s.sramPtr.setWidth 32 ∨ addr ≥ s.sramPtr.setWidth 32 + 0x100000#32 then none
    else some ptr

/-- `luat_heap_opt_free`: also to which of the pools. -/
def luatHeapOptFree (s : State w) (type : HeapType) (ptr : Ptr w) : Option (HeapType × Ptr w) :=
  if type = .psram then some (.psram, ptr)
  else (luatHeapFree s ptr).map (.sram, ·)

/-- One call. -/
inductive Act (w : PtrSize)
  | optInit (type : HeapType) (placed : Ptr w)
  | free (ptr : Ptr w)
  | optFree (type : HeapType) (ptr : Ptr w)

/-- How much a pool takes. -/
def HeapType.size : HeapType → Nat
  | psram => 2 * 1024 * 1024
  | _ => 1024 * 1024

/-- A block of the address space, which does not wrap around, and does not begin at `NULL`. -/
def Fits (placed : Ptr w) (size : Nat) : Prop :=
  placed ≠ 0 ∧ placed.toNat + size ≤ 2 ^ (8 * w.bytes)

instance (placed : Ptr w) (size : Nat) : Decidable (Fits placed size) :=
  inferInstanceAs (Decidable (_ ∧ _))

/-- One step.  A call of `malloc` that fails is not modelled: the pool would be at `NULL`. -/
def step (s : State w) : Act w → Option (State w × Option (HeapType × Ptr w))
  | .optInit type placed =>
    if Fits placed type.size then some (luatHeapOptInit s type placed, none) else none
  | .free ptr => some (s, (luatHeapFree s ptr).map (.sram, ·))
  | .optFree type ptr => some (s, luatHeapOptFree s type ptr)

/-- Any sequence of calls. -/
def machine (w : PtrSize) : Machine (State w) (Act w) (Option (HeapType × Ptr w)) :=
  ⟨⟨0, 0⟩, step⟩

/-- A transition. -/
abbrev Trans (w : PtrSize) := Transition (State w) (Act w) (Option (HeapType × Ptr w))

/-! ## The test -/

/-- The pointer is one into the pool. -/
def InPool (base p : Ptr w) : Prop :=
  base.toNat ≤ p.toNat ∧ p.toNat < base.toNat + 1024 * 1024

instance (base p : Ptr w) : Decidable (InPool base p) := inferInstanceAs (Decidable (_ ∧ _))

/-- The pool is where `malloc` has placed it. -/
theorem pool_fits {tr : List (Trans w)} {s : State w} (h : Run (machine w) tr s)
    (hplaced : s.sramPtr ≠ 0) : Fits s.sramPtr (1024 * 1024) := by
  refine h.invariant (I := fun s => s.sramPtr ≠ 0 → Fits s.sramPtr (1024 * 1024)) ?_ ?_ hplaced
  · intro hne
    exact absurd rfl hne
  · intro s a s' o ih hstep
    cases a with
    | optInit type placed =>
      obtain ⟨hfits, hinit⟩ := Option.ite_none_right_eq_some.1 hstep
      cases hinit
      unfold luatHeapOptInit
      split
      · exact ih
      · split
        · rename_i hsram
          rw [hsram.1] at hfits
          exact fun _ => hfits
        · exact ih
    | free ptr | optFree type ptr =>
      cases hstep
      exact ih

/-- **What is given back**, in terms of addresses modulo `2 ^ 32`. -/
theorem released_iff (s : State w) {p : Ptr w} (hp : p ≠ 0) :
    luatHeapFree s p = some p ↔
      s.sramPtr.toNat % 2 ^ 32 ≤ p.toNat % 2 ^ 32 ∧
        p.toNat % 2 ^ 32 < (s.sramPtr.toNat % 2 ^ 32 + 1024 * 1024) % 2 ^ 32 := by
  have htest : (p.setWidth 32 < s.sramPtr.setWidth 32 ∨
      p.setWidth 32 ≥ s.sramPtr.setWidth 32 + 0x100000#32) ↔
      ¬ (s.sramPtr.toNat % 2 ^ 32 ≤ p.toNat % 2 ^ 32 ∧
        p.toNat % 2 ^ 32 < (s.sramPtr.toNat % 2 ^ 32 + 1024 * 1024) % 2 ^ 32) := by
    rw [BitVec.lt_def, ge_iff_le, BitVec.le_def, BitVec.toNat_add, BitVec.toNat_setWidth,
      BitVec.toNat_setWidth, show (0x100000#32).toNat = 1024 * 1024 from rfl]
    omega
  rw [luatHeapFree, if_neg hp]
  dsimp only
  by_cases hrange : s.sramPtr.toNat % 2 ^ 32 ≤ p.toNat % 2 ^ 32 ∧
      p.toNat % 2 ^ 32 < (s.sramPtr.toNat % 2 ^ 32 + 1024 * 1024) % 2 ^ 32
  · rw [if_neg fun h => htest.1 h hrange]
    exact iff_of_true rfl hrange
  · rw [if_pos (htest.2 hrange)]
    exact iff_of_false (Option.some_ne_none p).symm hrange

/-- The pool does not reach up to a multiple of `2 ^ 32`. -/
def Below (base : Ptr w) : Prop := base.toNat % 2 ^ 32 + 1024 * 1024 < 2 ^ 32

/-- The lower 32 bits of the pointer are those of an address in the pool. -/
def LooksInPool (base p : Ptr w) : Prop :=
  base.toNat % 2 ^ 32 ≤ p.toNat % 2 ^ 32 ∧
    p.toNat % 2 ^ 32 < base.toNat % 2 ^ 32 + 1024 * 1024

/-- A pool below: what looks like a pointer into it is given back. -/
theorem released_iff_of_below {s : State w} (hbelow : Below s.sramPtr) {p : Ptr w} (hp : p ≠ 0) :
    luatHeapFree s p = some p ↔ LooksInPool s.sramPtr p := by
  unfold Below at hbelow
  rw [released_iff s hp, Nat.mod_eq_of_lt hbelow]
  rfl

/-- Any other pool gets nothing back. -/
theorem not_released_of_not_below {s : State w} (hbelow : ¬ Below s.sramPtr) {p : Ptr w}
    (hp : p ≠ 0) : luatHeapFree s p ≠ some p := by
  unfold Below at hbelow
  rw [ne_eq, released_iff s hp]
  omega

/-- The addresses of a pool below differ in their lower 32 bits only. -/
theorem inPool_iff_of_below {base p : Ptr w} (hbelow : Below base) :
    InPool base p ↔ LooksInPool base p ∧ p.toNat / 2 ^ 32 = base.toNat / 2 ^ 32 := by
  unfold Below at hbelow
  unfold InPool LooksInPool
  omega

/-- **Whether a pointer is treated right.** -/
theorem right_iff (s : State w) {p : Ptr w} (hp : p ≠ 0) :
    (luatHeapFree s p = some p ↔ InPool s.sramPtr p) ↔
      (Below s.sramPtr → LooksInPool s.sramPtr p → p.toNat / 2 ^ 32 = s.sramPtr.toNat / 2 ^ 32) ∧
        (¬ Below s.sramPtr → ¬ InPool s.sramPtr p) := by
  by_cases hbelow : Below s.sramPtr
  · rw [released_iff_of_below hbelow hp, inPool_iff_of_below hbelow]
    simp only [hbelow, true_implies, not_true_eq_false, false_implies, and_true]
    tauto
  · have hnot := not_released_of_not_below hbelow hp
    simp only [hbelow, hnot, false_implies, true_and, not_false_eq_true, true_implies,
      false_iff]

/-- With 64 bits, every pointer has another one with the same lower 32 bits. -/
theorem exists_alias (base : Ptr .eight) :
    ∃ p : Ptr .eight, p ≠ 0 ∧ p.toNat % 2 ^ 32 = base.toNat % 2 ^ 32 ∧
      p.toNat / 2 ^ 32 ≠ base.toNat / 2 ^ 32 := by
  have hbase : base.toNat < 2 ^ 64 := base.isLt
  -- the address 4 GiB above, or below where there is none
  obtain ⟨addr, haddr⟩ : ∃ addr, addr =
      if base.toNat < 2 ^ 63 then base.toNat + 2 ^ 32 else base.toNat - 2 ^ 32 := ⟨_, rfl⟩
  have hlt : addr < 2 ^ 64 := by split at haddr <;> omega
  obtain ⟨p, hp⟩ : ∃ p : Ptr .eight, p.toNat = addr :=
    ⟨BitVec.ofNat _ addr, (BitVec.toNat_ofNat ..).trans (Nat.mod_eq_of_lt hlt)⟩
  refine ⟨p, ?_, ?_, ?_⟩
  · rintro rfl
    have hzero : addr = 0 := hp.symm
    split at haddr <;> omega
  · rw [hp]
    split at haddr <;> omega
  · rw [hp]
    split at haddr <;> omega

/-- The beginning of the pool looks like an address in it. -/
theorem looksInPool_of_mod_eq {base p : Ptr w} (h : p.toNat % 2 ^ 32 = base.toNat % 2 ^ 32) :
    LooksInPool base p := by
  unfold LooksInPool
  omega

/-- **For which pools all pointers are treated right.** -/
theorem all_right_iff {s : State w} (hfits : Fits s.sramPtr (1024 * 1024)) :
    (∀ p : Ptr w, p ≠ 0 → (luatHeapFree s p = some p ↔ InPool s.sramPtr p)) ↔
      w = .four ∧ s.sramPtr.toNat + 1024 * 1024 < 2 ^ 32 := by
  have hself : InPool s.sramPtr s.sramPtr := ⟨le_refl _, by omega⟩
  constructor
  · intro hall
    have hbelow : Below s.sramPtr := by
      by_contra hbelow
      exact ((right_iff s hfits.1).1 (hall _ hfits.1)).2 hbelow hself
    cases w with
    | four =>
      have hlt : s.sramPtr.toNat < 2 ^ 32 := s.sramPtr.isLt
      refine ⟨rfl, ?_⟩
      unfold Below at hbelow
      omega
    | eight =>
      obtain ⟨p, hp, hmod, hdiv⟩ := exists_alias s.sramPtr
      exact absurd (((right_iff s hp).1 (hall p hp)).1 hbelow (looksInPool_of_mod_eq hmod)) hdiv
  · rintro ⟨rfl, hlt⟩ p hp
    have hbelow : Below s.sramPtr := by
      unfold Below
      omega
    have hp32 : p.toNat < 2 ^ 32 := p.isLt
    rw [right_iff s hp]
    refine ⟨fun _ _ => ?_, fun hnot => absurd hbelow hnot⟩
    omega

/-- **Which pointers are given back.**  In every state in which the pool has been placed, a pointer
is treated right if and only if, with a pool that does not reach up to a multiple of `2 ^ 32`, it
is not one from elsewhere with the lower 32 bits of an address in the pool, and, with any other
pool, it is not in the pool.  All pointers are treated right if and only if they have 32 bits and
the pool is not the last MiB of the address space. -/
theorem heap_free_iff {tr : List (Trans w)} {s : State w} (h : Run (machine w) tr s)
    (hplaced : s.sramPtr ≠ 0) :
    (∀ p : Ptr w, p ≠ 0 →
      ((luatHeapFree s p = some p ↔ InPool s.sramPtr p) ↔
        (Below s.sramPtr → LooksInPool s.sramPtr p →
            p.toNat / 2 ^ 32 = s.sramPtr.toNat / 2 ^ 32) ∧
          (¬ Below s.sramPtr → ¬ InPool s.sramPtr p))) ∧
      ((∀ p : Ptr w, p ≠ 0 → (luatHeapFree s p = some p ↔ InPool s.sramPtr p)) ↔
        w = .four ∧ s.sramPtr.toNat + 1024 * 1024 < 2 ^ 32) :=
  ⟨fun _ hp => right_iff s hp, all_right_iff (pool_fits h hplaced)⟩

/-- The state after `luat_heap_opt_init`. -/
def placedAt (w : PtrSize) (addr : Nat) : State w := ⟨0, BitVec.ofNat _ addr⟩

/-- A pool at 1 MiB, in an address space of 32 bits. -/
theorem heap_free_iff_low :
    ∃ tr, Run (machine .four) tr (placedAt .four 0x100000) ∧
      ∀ p : Ptr .four, p ≠ 0 → (luatHeapFree (placedAt .four 0x100000) p = some p ↔
        InPool (placedAt .four 0x100000).sramPtr p) := by
  have hrun : Run (machine .four) [⟨⟨0, 0⟩, .optInit .sram (BitVec.ofNat _ 0x100000), none,
      placedAt .four 0x100000⟩] (placedAt .four 0x100000) :=
    .snoc .start (by rfl)
  exact ⟨_, hrun, (heap_free_iff hrun (by decide)).2.2 ⟨rfl, by decide⟩⟩

/-- A pool in the last MiB of 32 bits: its own pointers are not given back.  A pool of 64 bits: a
pointer from elsewhere is given back. -/
theorem heap_free_wrong :
    (∃ tr, Run (machine .four) tr (placedAt .four 0xFFF00000) ∧
      ∃ p, InPool (placedAt .four 0xFFF00000).sramPtr p ∧
        luatHeapFree (placedAt .four 0xFFF00000) p = none) ∧
      ∃ tr, Run (machine .eight) tr (placedAt .eight 0x7F0010000000) ∧
        ∃ p, p ≠ 0 ∧ ¬ InPool (placedAt .eight 0x7F0010000000).sramPtr p ∧
          luatHeapFree (placedAt .eight 0x7F0010000000) p = some p := by
  constructor
  · refine ⟨[⟨⟨0, 0⟩, .optInit .sram (BitVec.ofNat _ 0xFFF00000), none, _⟩],
      .snoc .start (by rfl), BitVec.ofNat _ 0xFFF00010, by decide, by decide⟩
  · refine ⟨[⟨⟨0, 0⟩, .optInit .sram (BitVec.ofNat _ 0x7F0010000000), none, _⟩],
      .snoc .start (by rfl), BitVec.ofNat _ 0x10000010, by decide, by decide, by decide⟩

end LuatosPc.Heap
