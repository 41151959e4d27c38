import LuatosPc.Luac.Report

/-!
# What the reader does on the parts of a chunk

For each function of the reader, what it does where the cursor stands before the
bytes that Lua writes for that part: it returns what was written, stops behind
it, and adds to the report exactly the entries it should.

* `Report.Holds` — a pointer of the report leads to the given entry.
* `Report.Grows` — entries have been added behind those that were there, so every
  pointer still leads where it led (`Holds.mono`).
* `Updates` — entries have been added and one function record has been replaced;
  the effect of every part but the nested functions.
* `loads_prologue`, `Updates.after_constants`, `Updates.after_upvalues`,
  `Updates.after_debug` — the parts of a function.
* `of_loadBlock`, `of_loadInteger` — what stood at the cursor, if a read has come back.
-/

namespace LuatosPc.Luac

open LuatosPc.Bytes

variable {vm : Vm}

/-! ## Pointers into a report -/

/-- The count of `m` entries in group `g`. -/
def inGroup (g : Group) (m : Nat) : Group → Nat :=
  fun g' => if g' = g then m else 0

@[simp] theorem inGroup_self (g : Group) (m : Nat) : inGroup g m g = m := if_pos rfl

theorem inGroup_zero (g : Group) : inGroup g 0 = 0 := by
  funext g'
  simp [inGroup]

theorem inGroup_succ (g : Group) (m : Nat) : inGroup g (m + 1) = inGroup g 1 + inGroup g m := by
  funext g'
  by_cases hg : g' = g
  · simp [inGroup, hg, Nat.add_comm]
  · simp [inGroup, hg]

namespace Report

/-- The entry that a pointer leads to. -/
def deref (rpt : Report vm) (r : Ref) : Option (LuacData vm) :=
  (rpt.group r.group)[r.index]?

/-- The pointer leads to the entry `d`, or is `NULL` where there is none. -/
def Holds (rpt : Report vm) : Option Ref → Option (LuacData vm) → Prop
  | none, none => True
  | some r, some d => rpt.deref r = some d
  | none, some _ => False
  | some _, none => False

/-- Each group has `n` entries more, behind those it had. -/
def Grows (rpt rpt' : Report vm) (n : Group → Nat) : Prop :=
  ∀ g, ∃ ds, rpt'.group g = rpt.group g ++ ds ∧ ds.length = n g

/-- There is room for `n` entries more in each group. -/
def Room (rpt : Report vm) (n : Group → Nat) : Prop :=
  ∀ g, (rpt.group g).length + n g ≤ 32 * 1024

variable {rpt rpt₁ rpt₂ : Report vm} {n m : Group → Nat}

theorem Grows.refl (rpt : Report vm) : rpt.Grows rpt 0 :=
  fun g => ⟨[], by simp⟩

theorem Grows.trans (h₁ : rpt.Grows rpt₁ n) (h₂ : rpt₁.Grows rpt₂ m) :
    rpt.Grows rpt₂ (n + m) := by
  intro g
  obtain ⟨ds, hds, hn⟩ := h₁ g
  obtain ⟨es, hes, hm⟩ := h₂ g
  refine ⟨ds ++ es, by rw [hes, hds, List.append_assoc], ?_⟩
  rw [List.length_append, hn, hm, Pi.add_apply]

theorem Grows.zero_trans (h₁ : rpt.Grows rpt₁ 0) (h₂ : rpt₁.Grows rpt₂ m) :
    rpt.Grows rpt₂ m := by
  rw [← zero_add m]
  exact h₁.trans h₂

theorem Grows.length (h : rpt.Grows rpt₁ n) (g : Group) :
    (rpt₁.group g).length = (rpt.group g).length + n g := by
  obtain ⟨ds, hds, hn⟩ := h g
  rw [hds, List.length_append, hn]

theorem Room.left (h : rpt.Room (n + m)) : rpt.Room n := fun g => by
  have := h g
  rw [Pi.add_apply] at this
  omega

theorem Room.right (h : rpt.Room (n + m)) (hg : rpt.Grows rpt₁ n) : rpt₁.Room m := fun g => by
  have := h g
  rw [Pi.add_apply] at this
  rw [hg.length]
  omega

/-- A pointer leads where it led when entries are added. -/
theorem Holds.mono {r : Option Ref} {d : Option (LuacData vm)} (h : rpt.Holds r d)
    (hg : rpt.Grows rpt₁ n) : rpt₁.Holds r d := by
  cases r with
  | none =>
    cases d with
    | none => trivial
    | some d => exact h
  | some r =>
    cases d with
    | none => exact h
    | some d =>
      obtain ⟨ds, hds, -⟩ := hg r.group
      show (rpt₁.group r.group)[r.index]? = some d
      rw [hds, List.getElem?_append_left (List.getElem?_eq_some_iff.1 h).1]
      exact h

theorem Holds.mono_all {rs : List (Option Ref)} {ds : List (Option (LuacData vm))}
    (h : List.Forall₂ rpt.Holds rs ds) (hg : rpt.Grows rpt₁ n) : List.Forall₂ rpt₁.Holds rs ds :=
  h.imp fun _ _ hrd => hrd.mono hg

end Report

/-- The effect of reading a part of function `id`: the groups have grown by `n`,
and its record is now `f`. -/
structure Updates (id : Nat) (rpt rpt' : Report vm) (f : LufFunc) (n : Group → Nat) : Prop where
  grows : rpt.Grows rpt' n
  func : rpt'.lufFuncs id = f
  frame : ∀ j, j ≠ id → rpt'.lufFuncs j = rpt.lufFuncs j
  count : rpt'.funcCount = rpt.funcCount

theorem Updates.refl (id : Nat) (rpt : Report vm) : Updates id rpt rpt (rpt.lufFuncs id) 0 :=
  ⟨.refl rpt, rfl, fun _ _ => rfl, rfl⟩

theorem Updates.trans {id : Nat} {rpt rpt₁ rpt₂ : Report vm} {f₁ f₂ : LufFunc} {n m : Group → Nat}
    (h₁ : Updates id rpt rpt₁ f₁ n) (h₂ : Updates id rpt₁ rpt₂ f₂ m) :
    Updates id rpt rpt₂ f₂ (n + m) where
  grows := h₁.grows.trans h₂.grows
  func := h₂.func
  frame := fun j hj => (h₂.frame j hj).trans (h₁.frame j hj)
  count := h₂.count.trans h₁.count

/-! ## Stores -/

section

variable {id : Nat} {rpt rpt₁ : Report vm} {f : LufFunc} {n : Group → Nat}

theorem Updates.after_setFunc (h : Updates id rpt rpt₁ f n) (hid : id < 1024)
    (upd : LufFunc → LufFunc) (bs : List UInt8) :
    ∃ rpt₂, Yields (setFunc id upd) ⟨bs, rpt₁⟩ () ⟨bs, rpt₂⟩ ∧ Updates id rpt rpt₂ (upd f) n ∧
      rpt₁.Grows rpt₂ 0 := by
  obtain ⟨hgrows, rfl, hframe, hcount⟩ := h
  refine ⟨{ rpt₁ with lufFuncs := Function.update rpt₁.lufFuncs id (upd (rpt₁.lufFuncs id)) },
    if_pos hid, ⟨hgrows, Function.update_self .., fun j hj => ?_, hcount⟩, .refl rpt₁⟩
  exact (Function.update_of_ne hj ..).trans (hframe j hj)

theorem Updates.after_setSlot {α : Type} (h : Updates id rpt rpt₁ f n) (hid : id < 1024)
    (block : LufFunc → List (Option α)) (put : LufFunc → List (Option α) → LufFunc) {i : Nat}
    (hi : i < (block f).length) (x : α) (bs : List UInt8) :
    ∃ rpt₂, Yields (setSlot id block put i x) ⟨bs, rpt₁⟩ () ⟨bs, rpt₂⟩ ∧
      Updates id rpt rpt₂ (put f ((block f).set i (some x))) n ∧ rpt₁.Grows rpt₂ 0 := by
  obtain ⟨rpt₂, hset, hupd⟩ :=
    h.after_setFunc hid (fun f => put f ((block f).set i (some x))) bs
  refine ⟨rpt₂, (if_pos ?_).trans hset, hupd⟩
  show i < (block (rpt₁.lufFuncs id)).length
  rwa [h.func]

/-- An entry at the end of a group. -/
def Report.pushed (rpt : Report vm) (g : Group) (d : LuacData vm) : Report vm :=
  { rpt with group := Function.update rpt.group g (rpt.group g ++ [d]) }

theorem Report.grows_pushed (rpt : Report vm) (g : Group) (d : LuacData vm) :
    rpt.Grows (rpt.pushed g d) (inGroup g 1) := by
  intro g'
  by_cases hg : g' = g
  · subst hg
    exact ⟨[d], by simp [Report.pushed], by simp⟩
  · exact ⟨[], by simp [Report.pushed, hg], by simp [inGroup, hg]⟩

theorem Updates.after_push (h : Updates id rpt rpt₁ f n) {g : Group} (d : LuacData vm)
    (hroom : rpt.Room (n + inGroup g 1)) (bs : List UInt8) :
    ∃ rpt₂ r, Yields (push g d) ⟨bs, rpt₁⟩ r ⟨bs, rpt₂⟩ ∧
      Updates id rpt rpt₂ f (n + inGroup g 1) ∧ rpt₁.Grows rpt₂ (inGroup g 1) ∧
      rpt₂.Holds (some r) (some d) := by
  have hlt : (rpt₁.group g).length < 32 * 1024 := by
    have := hroom.right h.grows g
    rw [inGroup_self] at this
    omega
  have hgrows := rpt₁.grows_pushed g d
  refine ⟨rpt₁.pushed g d, ⟨g, (rpt₁.group g).length⟩, if_pos hlt,
    ⟨h.grows.trans hgrows, h.func, h.frame, h.count⟩, hgrows, ?_⟩
  show ((rpt₁.pushed g d).group g)[(rpt₁.group g).length]? = some d
  simp [Report.pushed]

end

/-! ## Numbers and strings -/

section

variable (rpt : Report vm) (rest : List UInt8)

theorem loads_block {n : Nat} {bs : List UInt8} (h : bs.length = n) :
    Yields (loadBlock n) ⟨bs ++ rest, rpt⟩ bs ⟨rest, rpt⟩ := by
  have hle : n ≤ (bs ++ rest).length := by
    rw [List.length_append]
    omega
  show (if n ≤ (bs ++ rest).length then _ else _) = _
  rw [if_pos hle, List.take_left' h, List.drop_left' h]

theorem loads_int (x : CInt) : Yields loadInt ⟨dumpInt x ++ rest, rpt⟩ x ⟨rest, rpt⟩ := by
  have hx : BitVec.ofNat 32 (leValue (leBytes 4 x.toNat)) = x := by
    rw [leValue_leBytes x.isLt, BitVec.ofNat_toNat, BitVec.setWidth_eq]
  have hblock := loads_block rpt rest (length_leBytes 4 x.toNat)
  refine hblock.bind ?_
  rw [hx]
  exact Yields.pure x _

theorem loads_byte (v : UInt8) : Yields loadByte ⟨[v] ++ rest, rpt⟩ v ⟨rest, rpt⟩ := by
  have hv : UInt8.ofNat (leValue [v]) = v := by simp [leValue]
  refine (loads_block rpt rest List.length_singleton).bind ?_
  rw [hv]
  exact Yields.pure v _

/-- The number that stands in some bytes of the file. -/
def wordOf (vm : Vm) (bs : List UInt8) : Word vm := BitVec.ofNat _ (leValue bs)

theorem wordOf_leBytes (x : Word vm) : wordOf vm (leBytes vm.size x.toNat) = x := by
  have hlt : x.toNat < 256 ^ vm.size := by
    have := x.isLt
    rwa [Nat.pow_mul] at this
  rw [wordOf, leValue_leBytes hlt, BitVec.ofNat_toNat, BitVec.setWidth_eq]

theorem loads_wordOf {bs : List UInt8} (h : bs.length = vm.size) :
    Yields loadInteger ⟨bs ++ rest, rpt⟩ (wordOf vm bs) ⟨rest, rpt⟩ :=
  (loads_block rpt rest h).bind (Yields.pure _ _)

theorem loads_word (x : Word vm) :
    Yields loadInteger ⟨leBytes vm.size x.toNat ++ rest, rpt⟩ x ⟨rest, rpt⟩ := by
  have h := loads_wordOf rpt rest (length_leBytes vm.size x.toNat)
  rwa [wordOf_leBytes] at h

/-- The block that a string is read into. -/
def strBlock (s : Option Str) : Option Block := s.map (· ++ [0])

/-- Its length, with the terminator. -/
def strLen : Option Str → Nat
  | none => 0
  | some s => s.length + 1

theorem strLen_le (s : Option Str) : strLen s ≤ (dumpString s).length := by
  cases s with
  | none => exact Nat.zero_le _
  | some s =>
    simp only [strLen, dumpString]
    split <;> simp

theorem loads_chars (s : Str) :
    Yields (loadChars (s.length + 1)) ⟨s ++ rest, rpt⟩ (some (s ++ [0]), s.length + 1)
      ⟨rest, rpt⟩ := by
  unfold loadChars
  by_cases hs : s = []
  · subst hs
    rw [if_neg (by simp)]
    exact Yields.pure _ _
  · have hpos := List.length_pos_iff.2 hs
    rw [if_pos (by omega)]
    exact (loads_block rpt rest (by omega)).bind (Yields.pure _ _)

theorem loads_string {s : Option Str} (hs : strLen s < 2 ^ 32) :
    Yields loadString ⟨dumpString s ++ rest, rpt⟩ (strBlock s, strLen s) ⟨rest, rpt⟩ := by
  unfold loadString
  cases s with
  | none => exact (loads_byte rpt rest 0).bind (Yields.pure _ _)
  | some s =>
    simp only [strLen] at hs
    simp only [dumpString]
    by_cases hsmall : s.length + 1 < 0xFF
    · -- the length stands in the first byte
      have hval : (UInt8.ofNat (s.length + 1)).toNat = s.length + 1 := by
        rw [UInt8.toNat_ofNat']
        omega
      have hzero : UInt8.ofNat (s.length + 1) ≠ 0 := fun h => by
        rw [h] at hval
        simp at hval
      have hmarker : UInt8.ofNat (s.length + 1) ≠ 0xFF := fun h => by
        rw [h] at hval
        simp at hval
        omega
      rw [if_pos hsmall]
      refine (loads_byte rpt (s ++ rest) _).bind ?_
      rw [if_neg hzero]
      have hlen : Yields (loadLength (UInt8.ofNat (s.length + 1))) ⟨s ++ rest, rpt⟩ (s.length + 1)
          ⟨s ++ rest, rpt⟩ := by
        rw [loadLength, if_neg hmarker, hval]
        exact Yields.pure _ _
      exact hlen.bind (loads_chars rpt rest s)
    · -- the length stands behind the marker
      rw [if_neg hsmall, List.cons_append, List.append_assoc]
      refine (loads_byte rpt _ 0xFF).bind ?_
      rw [if_neg (by decide)]
      have hval : (BitVec.ofNat 32 (s.length + 1)).toNat = s.length + 1 := by
        rw [BitVec.toNat_ofNat, Nat.mod_eq_of_lt hs]
      have hint := loads_int rpt (s ++ rest) (BitVec.ofNat 32 (s.length + 1))
      rw [dumpInt, hval] at hint
      have hlen : Yields (loadLength 0xFF) ⟨leBytes 4 (s.length + 1) ++ (s ++ rest), rpt⟩
          (s.length + 1) ⟨s ++ rest, rpt⟩ := by
        rw [loadLength, if_pos rfl]
        refine hint.bind ?_
        rw [hval]
        exact Yields.pure _ _
      exact hlen.bind (loads_chars rpt rest s)

end

/-! ## Names and constants -/

/-- The entry for a string of the debug information. -/
def nameData (s : Option Str) : LuacData vm :=
  ⟨.data (strBlock s), strLen s, 0, if strLen s ≤ 41 then luaTString else luaTLngstr⟩

/-- The entry for a constant; there is none for `nil`. -/
def Constant.data : Constant vm → Option (LuacData vm)
  | .nil => none
  | .boolean b => some ⟨.nint (if b then 1 else 0), vm.size, luaTBoolean, luaTBoolean⟩
  | .number x => some ⟨.nnum x, vm.size, luaTNumflt, luaTNumflt⟩
  | .integer x => some ⟨.nint x, vm.size, 1, luaTNumint⟩
  | .shortString s => some ⟨.data (strBlock (some s)), strLen (some s), 0, luaTString⟩
  | .longString s => some ⟨.data (strBlock (some s)), strLen (some s), 0, luaTLngstr⟩

/-- The number of entries that a constant takes in each group. -/
def Constant.entries : Constant vm → Group → Nat
  | .nil => 0
  | .boolean _ | .number _ | .integer _ => inGroup .numbers 1
  | .shortString _ | .longString _ => inGroup .strs 1

section

variable {id : Nat} {rpt rpt₁ : Report vm} {f : LufFunc} {n : Group → Nat}

theorem Updates.after_name (h : Updates id rpt rpt₁ f n) {s : Option Str} (hs : strLen s < 2 ^ 32)
    (hroom : rpt.Room (n + inGroup .strs 1)) (rest : List UInt8) :
    ∃ rpt₂ r, Yields loadName ⟨dumpString s ++ rest, rpt₁⟩ r ⟨rest, rpt₂⟩ ∧
      Updates id rpt rpt₂ f (n + inGroup .strs 1) ∧ rpt₁.Grows rpt₂ (inGroup .strs 1) ∧
      rpt₂.Holds (some r) (some (nameData s)) := by
  obtain ⟨rpt₂, r, hpush, hupd⟩ := h.after_push (nameData s) hroom rest
  exact ⟨rpt₂, r, (loads_string rpt₁ rest hs).bind hpush, hupd⟩

/-- An entry for a constant is added and the pointer to it stored in the next
slot. -/
theorem Updates.after_entry (h : Updates id rpt rpt₁ f n) (hid : id < 1024) {g : Group}
    (d : LuacData vm) (hroom : rpt.Room (n + inGroup g 1)) {rs tail : List (Option Ref)}
    (hk : f.k = rs ++ none :: tail) (rest : List UInt8) :
    ∃ rpt₂ r, Yields (do setK id rs.length (← push g d); return true) ⟨rest, rpt₁⟩ true
        ⟨rest, rpt₂⟩ ∧
      Updates id rpt rpt₂ { f with k := rs ++ some r :: tail } (n + inGroup g 1) ∧
      rpt₁.Grows rpt₂ (inGroup g 1) ∧ rpt₂.Holds (some r) (some d) := by
  obtain ⟨rpt₂, r, hpush, hupd, hgrows, hr⟩ := h.after_push d hroom rest
  have hi : rs.length < f.k.length := by simp [hk]
  obtain ⟨rpt₃, hset, hupd', hgrows'⟩ := hupd.after_setSlot hid (·.k)
    (fun f k => { f with k := k }) hi r rest
  have hslot : f.k.set rs.length (some r) = rs ++ some r :: tail := by simp [hk]
  rw [hslot] at hupd'
  exact ⟨rpt₃, r, hpush.bind (hset.bind (Yields.pure true _)), hupd', hgrows.trans hgrows',
    hr.mono hgrows'⟩

theorem strLen_lt_of_constant {s : Str} {c : Constant vm}
    (hc : c = .shortString s ∨ c = .longString s) (hlen : (dumpConstant c).length < 2 ^ 32) :
    strLen (some s) < 2 ^ 32 := by
  have hle := strLen_le (some s)
  rcases hc with rfl | rfl <;>
  · rw [dumpConstant, List.length_cons] at hlen
    omega

/-- One constant: its entry is added, and a pointer to it stored, unless it is
`nil`. -/
theorem Updates.after_constant (h : Updates id rpt rpt₁ f n) (hid : id < 1024) (c : Constant vm)
    (hlen : (dumpConstant c).length < 2 ^ 32) (hroom : rpt.Room (n + c.entries))
    {rs tail : List (Option Ref)} (hk : f.k = rs ++ none :: tail) (rest : List UInt8) :
    ∃ rpt₂ r, Yields (loadConstant id rs.length) ⟨dumpConstant c ++ rest, rpt₁⟩ true ⟨rest, rpt₂⟩ ∧
      Updates id rpt rpt₂ { f with k := rs ++ r :: tail } (n + c.entries) ∧
      rpt₁.Grows rpt₂ c.entries ∧ rpt₂.Holds r c.data := by
  cases c with
  | nil =>
    refine ⟨rpt₁, none, (loads_byte rpt₁ rest 0).bind (Yields.pure _ _), ?_, .refl rpt₁, trivial⟩
    rw [← hk]
    exact h
  | boolean b =>
    obtain ⟨rpt₂, r, hstore, hupd, hgrows, hr⟩ := h.after_entry hid
      ⟨.nint (BitVec.ofNat _ (if b then 1 else 0 : UInt8).toNat), vm.size, luaTBoolean, luaTBoolean⟩
      hroom hk rest
    refine ⟨rpt₂, some r, ?_, hupd, hgrows, ?_⟩
    · refine (loads_byte rpt₁ ([if b then 1 else 0] ++ rest) 1).bind ?_
      exact (loads_byte rpt₁ rest (if b then 1 else 0)).bind hstore
    · cases b <;> exact hr
  | number x =>
    obtain ⟨rpt₂, r, hstore, hupd, hgrows, hr⟩ := h.after_entry hid
      ⟨.nnum x, vm.size, luaTNumflt, luaTNumflt⟩ hroom hk rest
    refine ⟨rpt₂, some r, ?_, hupd, hgrows, hr⟩
    exact (loads_byte rpt₁ (leBytes vm.size x.toNat ++ rest) 3).bind
      ((loads_word rpt₁ rest x).bind hstore)
  | integer x =>
    obtain ⟨rpt₂, r, hstore, hupd, hgrows, hr⟩ := h.after_entry hid
      ⟨.nint x, vm.size, 1, luaTNumint⟩ hroom hk rest
    refine ⟨rpt₂, some r, ?_, hupd, hgrows, hr⟩
    exact (loads_byte rpt₁ (leBytes vm.size x.toNat ++ rest) 0x13).bind
      ((loads_word rpt₁ rest x).bind hstore)
  | shortString s =>
    obtain ⟨rpt₂, r, hstore, hupd, hgrows, hr⟩ := h.after_entry hid
      ⟨.data (strBlock (some s)), strLen (some s), 0, luaTString⟩ hroom hk rest
    refine ⟨rpt₂, some r, ?_, hupd, hgrows, hr⟩
    exact (loads_byte rpt₁ (dumpString (some s) ++ rest) 4).bind
      ((loads_string rpt₁ rest (strLen_lt_of_constant (.inl rfl) hlen)).bind hstore)
  | longString s =>
    obtain ⟨rpt₂, r, hstore, hupd, hgrows, hr⟩ := h.after_entry hid
      ⟨.data (strBlock (some s)), strLen (some s), 0, luaTLngstr⟩ hroom hk rest
    refine ⟨rpt₂, some r, ?_, hupd, hgrows, hr⟩
    exact (loads_byte rpt₁ (dumpString (some s) ++ rest) 0x14).bind
      ((loads_string rpt₁ rest (strLen_lt_of_constant (.inr rfl) hlen)).bind hstore)

/-- The loop over the constants. -/
theorem Updates.after_constantLoop (hid : id < 1024) (cs : List (Constant vm))
    (hlen : (cs.flatMap dumpConstant).length < 2 ^ 32) (rest : List UInt8)
    (h : Updates id rpt rpt₁ f n) (hroom : rpt.Room (n + (cs.map Constant.entries).sum))
    (rs : List (Option Ref)) (hk : f.k = rs ++ List.replicate cs.length none) :
    ∃ rpt₂ rs', Yields (forWhile (loadConstant id) cs.length rs.length)
        ⟨cs.flatMap dumpConstant ++ rest, rpt₁⟩ () ⟨rest, rpt₂⟩ ∧
      Updates id rpt rpt₂ { f with k := rs ++ rs' } (n + (cs.map Constant.entries).sum) ∧
      rpt₁.Grows rpt₂ (cs.map Constant.entries).sum ∧
      List.Forall₂ rpt₂.Holds rs' (cs.map Constant.data) := by
  induction cs generalizing rpt₁ f n rs with
  | nil =>
    rw [List.length_nil, List.replicate_zero] at hk
    refine ⟨rpt₁, [], Yields.forWhile_zero _ _ _, ?_, .refl rpt₁, .nil⟩
    rw [← hk]
    exact h
  | cons c cs ih =>
    rw [List.flatMap_cons, List.length_append] at hlen
    rw [List.map_cons, List.sum_cons, ← add_assoc] at hroom
    rw [List.length_cons, List.replicate_succ] at hk
    obtain ⟨rpt₂, r, hone, hupd, hgrows, hr⟩ :=
      h.after_constant hid c (by omega) hroom.left hk (cs.flatMap dumpConstant ++ rest)
    have hk' : rs ++ r :: List.replicate cs.length none =
        (rs ++ [r]) ++ List.replicate cs.length none := by simp
    obtain ⟨rpt₃, rs', hloop, hupd', hgrows', hrs'⟩ := ih (by omega) hupd hroom _ hk'
    rw [List.length_append, List.length_singleton] at hloop
    rw [List.append_assoc, List.singleton_append, add_assoc] at hupd'
    refine ⟨rpt₃, r :: rs', ?_, hupd', hgrows.trans hgrows', .cons (hr.mono hgrows') hrs'⟩
    rw [List.flatMap_cons, List.append_assoc]
    exact hone.forWhile_succ hloop

end

/-! ## Sizes -/

theorem size_toNat {n : Nat} (h : n < 2 ^ 32) : (BitVec.ofNat 32 n).toNat = n := by
  rw [BitVec.toNat_ofNat, Nat.mod_eq_of_lt h]

theorem size_toInt {n : Nat} (h : n < 2 ^ 31) : (BitVec.ofNat 32 n).toInt = n := by
  rw [BitVec.toInt_eq_toNat_of_lt (by rw [size_toNat] <;> omega), size_toNat (by omega)]

theorem size_eq_zero {n : Nat} (h : n < 2 ^ 32) : BitVec.ofNat 32 n = 0 ↔ n = 0 := by
  rw [← BitVec.toNat_inj, size_toNat h]
  rfl

/-- A block with a slot for each element. -/
theorem slots_size {α : Type} {n : Nat} (h : n < 2 ^ 30) :
    (slots (BitVec.ofNat 32 n) 4 : List (Option α)) = List.replicate n none := by
  rw [slots, size_toNat (by omega), Nat.mod_eq_of_lt (by omega), Nat.mul_div_cancel n (by decide)]

section

variable {id : Nat} {rpt rpt₁ : Report vm} {f : LufFunc} {n : Group → Nat}

/-- `LoadConstants` reads the constants back. -/
theorem Updates.after_constants (h : Updates id rpt rpt₁ f n) (hid : id < 1024)
    {k : List (Constant vm)} (hsize : k.length < 2 ^ 30)
    (hlen : (k.flatMap dumpConstant).length < 2 ^ 32)
    (hroom : rpt.Room (n + (k.map Constant.entries).sum)) (hempty : f.k = []) (rest : List UInt8) :
    ∃ rpt₂ rs, Yields (loadConstants id) ⟨dumpConstants k ++ rest, rpt₁⟩ () ⟨rest, rpt₂⟩ ∧
      Updates id rpt rpt₂ { f with sizek := k.length, k := rs }
        (n + (k.map Constant.entries).sum) ∧
      rpt₁.Grows rpt₂ (k.map Constant.entries).sum ∧
      List.Forall₂ rpt₂.Holds rs (k.map Constant.data) := by
  unfold loadConstants dumpConstants dumpSize
  rw [List.append_assoc]
  have hn : (BitVec.ofNat 32 k.length).toNat = k.length := size_toNat (by omega)
  obtain ⟨rpt₂, hset, hupd, hgrows⟩ := h.after_setFunc hid
    (fun f => { f with sizek := (BitVec.ofNat 32 k.length).toNat })
    (k.flatMap dumpConstant ++ rest)
  rw [hn] at hupd
  by_cases hk : k = []
  · have hzero : BitVec.ofNat 32 k.length = 0 := by rw [hk]; rfl
    subst hk
    refine ⟨rpt₂, [], (loads_int rpt₁ _ _).bind (hset.bind ?_), ?_, hgrows, .nil⟩
    · rw [if_pos hzero]
      exact Yields.pure () _
    · rw [← hempty]
      exact hupd
  · have hne : BitVec.ofNat 32 k.length ≠ 0 := fun h0 =>
      hk (List.length_eq_zero_iff.1 ((size_eq_zero (by omega)).1 h0))
    obtain ⟨rpt₃, hset', hupd', hgrows'⟩ := hupd.after_setFunc hid
      (fun f => { f with k := slots (BitVec.ofNat 32 k.length) 4 })
      (k.flatMap dumpConstant ++ rest)
    obtain ⟨rpt₄, rs, hloop, hupd'', hgrows'', hrs⟩ :=
      hupd'.after_constantLoop hid k hlen rest hroom [] (slots_size hsize)
    refine ⟨rpt₄, rs, (loads_int rpt₁ _ _).bind (hset.bind ?_), hupd'',
      hgrows.zero_trans (hgrows'.zero_trans hgrows''), hrs⟩
    rw [if_neg hne]
    refine hset'.bind ?_
    rw [size_toInt (by omega)]
    exact hloop

/-- `LoadUpvalues` reads the pairs of the upvalues back. -/
theorem Updates.after_upvalues (h : Updates id rpt rpt₁ f n) (hid : id < 1024)
    {us : List Upvaldesc} (hlen : (upvaluePairs us).length < 2 ^ 32) (hempty : f.upvalues = [])
    (rest : List UInt8) :
    ∃ rpt₂, Yields (loadUpvalues id) ⟨dumpUpvalues us ++ rest, rpt₁⟩ () ⟨rest, rpt₂⟩ ∧
      Updates id rpt rpt₂ { f with sizeupvalues := us.length, upvalues := upvaluePairs us } n ∧
      rpt₁.Grows rpt₂ 0 := by
  unfold loadUpvalues dumpUpvalues dumpSize
  rw [List.append_assoc]
  have hpairs : (upvaluePairs us).length = us.length * 2 := by
    simp [upvaluePairs, List.length_flatMap]
  have hn : (BitVec.ofNat 32 us.length).toNat = us.length := size_toNat (by omega)
  obtain ⟨rpt₂, hset, hupd, hgrows⟩ := h.after_setFunc hid
    (fun f => { f with sizeupvalues := (BitVec.ofNat 32 us.length).toNat })
    (upvaluePairs us ++ rest)
  rw [hn] at hupd
  by_cases hus : us = []
  · have hzero : BitVec.ofNat 32 us.length = 0 := by rw [hus]; rfl
    subst hus
    refine ⟨rpt₂, (loads_int rpt₁ _ _).bind (hset.bind ?_), ?_, hgrows⟩
    · rw [if_pos hzero]
      exact Yields.pure () _
    · rw [show upvaluePairs [] = f.upvalues from hempty.symm]
      exact hupd
  · have hne : BitVec.ofNat 32 us.length ≠ 0 := fun h0 =>
      hus (List.length_eq_zero_iff.1 ((size_eq_zero (by omega)).1 h0))
    obtain ⟨rpt₃, hset', hupd', hgrows'⟩ := hupd.after_setFunc hid
      (fun f => { f with upvalues := upvaluePairs us }) rest
    refine ⟨rpt₃, (loads_int rpt₁ _ _).bind (hset.bind ?_), hupd', hgrows.trans hgrows'⟩
    rw [if_neg hne]
    exact (loads_block rpt₂ rest (by rw [hn, hpairs]; omega)).bind hset'

/-! ## Debug information -/

/-- The entry for line information. -/
def lineData (ls : List CInt) : LuacData vm :=
  ⟨.data (if ls = [] then none else some (ls.flatMap dumpInt)), ls.length * 4, 0, 0⟩

theorem length_flatMap_dumpInt (xs : List CInt) : (xs.flatMap dumpInt).length = xs.length * 4 := by
  simp [dumpInt, List.length_flatMap]

theorem Updates.after_lineinfo (h : Updates id rpt rpt₁ f n) (hid : id < 1024) {ls : List CInt}
    (hlen : (ls.flatMap dumpInt).length < 2 ^ 32) (hroom : rpt.Room (n + inGroup .lineNumbers 1))
    (rest : List UInt8) :
    ∃ rpt₂ r, Yields (loadLineinfo id)
        ⟨dumpSize ls.length ++ ls.flatMap dumpInt ++ rest, rpt₁⟩ () ⟨rest, rpt₂⟩ ∧
      Updates id rpt rpt₂ { f with sizelineinfo := ls.length, lineinfo := some r }
        (n + inGroup .lineNumbers 1) ∧
      rpt₁.Grows rpt₂ (inGroup .lineNumbers 1) ∧
      rpt₂.Holds (some r) (some (lineData ls)) := by
  unfold loadLineinfo dumpSize
  rw [List.append_assoc]
  rw [length_flatMap_dumpInt] at hlen
  have hn : (BitVec.ofNat 32 ls.length).toNat = ls.length := size_toNat (by omega)
  obtain ⟨rpt₂, hset, hupd, hgrows⟩ := h.after_setFunc hid
    (fun f => { f with sizelineinfo := (BitVec.ofNat 32 ls.length).toNat })
    (ls.flatMap dumpInt ++ rest)
  rw [hn] at hupd
  obtain ⟨rpt₃, r, hpush, hupd', hgrows', hr⟩ := hupd.after_push (lineData ls) hroom rest
  obtain ⟨rpt₄, hset', hupd'', hgrows''⟩ := hupd'.after_setFunc hid
    (fun f => { f with lineinfo := some r }) rest
  have hlines : Yields (loadLines (BitVec.ofNat 32 ls.length)) ⟨ls.flatMap dumpInt ++ rest, rpt₂⟩
      (if ls = [] then none else some (ls.flatMap dumpInt)) ⟨rest, rpt₂⟩ := by
    unfold loadLines
    rw [size_toInt (by omega), hn, Nat.mod_eq_of_lt hlen]
    by_cases hls : ls = []
    · subst hls
      rw [if_pos rfl, if_neg (by simp)]
      exact Yields.pure none _
    · have hpos := List.length_pos_iff.2 hls
      have htouch : Yields (touch .lineNumbers) ⟨ls.flatMap dumpInt ++ rest, rpt₂⟩ ()
          ⟨ls.flatMap dumpInt ++ rest, rpt₂⟩ := by
        have hlt := hroom.right hupd.grows .lineNumbers
        rw [inGroup_self] at hlt
        exact if_pos (by show (rpt₂.group .lineNumbers).length < _; omega)
      rw [if_neg hls, if_pos (by omega)]
      exact htouch.bind ((loads_block rpt₂ rest (length_flatMap_dumpInt ls)).bind (Yields.pure _ _))
  refine ⟨rpt₄, r, (loads_int rpt₁ _ _).bind (hset.bind (hlines.bind ?_)), hupd'',
    hgrows.zero_trans (hgrows'.trans hgrows''), hr.mono hgrows''⟩
  rw [hn, Nat.mod_eq_of_lt hlen]
  exact hpush.bind hset'

/-- The start and end of each local variable, as they stand in `locvars`. -/
def pcRanges (vs : List LocVar) : List (Option CInt) :=
  vs.flatMap fun v => [some v.startpc, some v.endpc]

/-- One local variable. -/
theorem Updates.after_locvar (h : Updates id rpt rpt₁ f n) (hid : id < 1024) (v : LocVar)
    (hlen : (dumpLocVar v).length < 2 ^ 32) (hroom : rpt.Room (n + inGroup .strs 1))
    {rs tail : List (Option Ref)} {pcs tail' : List (Option CInt)}
    (hrs : f.locvars2 = rs ++ none :: tail) (hpcs : f.locvars = pcs ++ none :: none :: tail')
    (hlength : pcs.length = rs.length * 2) (rest : List UInt8) :
    ∃ rpt₂ r, Yields (loadLocvar id rs.length) ⟨dumpLocVar v ++ rest, rpt₁⟩ () ⟨rest, rpt₂⟩ ∧
      Updates id rpt rpt₂ { f with
        locvars2 := rs ++ some r :: tail
        locvars := pcs ++ some v.startpc :: some v.endpc :: tail' } (n + inGroup .strs 1) ∧
      rpt₁.Grows rpt₂ (inGroup .strs 1) ∧ rpt₂.Holds (some r) (some (nameData v.varname)) := by
  have hname : strLen v.varname < 2 ^ 32 := by
    have := strLen_le v.varname
    rw [dumpLocVar, List.length_append] at hlen
    omega
  obtain ⟨rpt₂, r, hload, hupd, hgrows, hr⟩ :=
    h.after_name hname hroom (dumpInt v.startpc ++ (dumpInt v.endpc ++ rest))
  obtain ⟨rpt₃, hset₁, hupd₁, hgrows₁⟩ := hupd.after_setSlot hid (·.locvars2)
    (fun f l => { f with locvars2 := l }) (i := rs.length)
    (by simp [hrs]) r (dumpInt v.startpc ++ (dumpInt v.endpc ++ rest))
  obtain ⟨rpt₄, hset₂, hupd₂, hgrows₂⟩ := hupd₁.after_setSlot hid (·.locvars)
    (fun f l => { f with locvars := l }) (i := rs.length * 2)
    (by simp [hpcs, hlength]) v.startpc (dumpInt v.endpc ++ rest)
  obtain ⟨rpt₅, hset₃, hupd₃, hgrows₃⟩ := hupd₂.after_setSlot hid (·.locvars)
    (fun f l => { f with locvars := l }) (i := rs.length * 2 + 1)
    (by simp [hpcs, hlength]) v.endpc rest
  have hrs' : f.locvars2.set rs.length (some r) = rs ++ some r :: tail := by simp [hrs]
  have hpcs' : (f.locvars.set (rs.length * 2) (some v.startpc)).set (rs.length * 2 + 1)
      (some v.endpc) = pcs ++ some v.startpc :: some v.endpc :: tail' := by
    rw [hpcs, ← hlength]
    simp
  simp only [hrs', hpcs'] at hupd₃
  have hlater := hgrows₁.zero_trans (hgrows₂.zero_trans hgrows₃)
  refine ⟨rpt₅, r, ?_, hupd₃, hgrows.trans hlater, hr.mono hlater⟩
  rw [dumpLocVar, List.append_assoc, List.append_assoc]
  exact hload.bind (hset₁.bind ((loads_int rpt₃ _ _).bind (hset₂.bind
    ((loads_int rpt₄ _ _).bind hset₃))))

/-- The loop over the local variables. -/
theorem Updates.after_locvarLoop (hid : id < 1024) (vs : List LocVar)
    (hlen : (vs.flatMap dumpLocVar).length < 2 ^ 32) (rest : List UInt8)
    (h : Updates id rpt rpt₁ f n) (hroom : rpt.Room (n + inGroup .strs vs.length))
    (rs : List (Option Ref)) (pcs : List (Option CInt)) (hlength : pcs.length = rs.length * 2)
    (hrs : f.locvars2 = rs ++ List.replicate vs.length none)
    (hpcs : f.locvars = pcs ++ List.replicate (vs.length * 2) none) :
    ∃ rpt₂ rs', Yields (forUpTo (loadLocvar id) vs.length rs.length)
        ⟨vs.flatMap dumpLocVar ++ rest, rpt₁⟩ () ⟨rest, rpt₂⟩ ∧
      Updates id rpt rpt₂ { f with locvars2 := rs ++ rs', locvars := pcs ++ pcRanges vs }
        (n + inGroup .strs vs.length) ∧
      rpt₁.Grows rpt₂ (inGroup .strs vs.length) ∧
      List.Forall₂ rpt₂.Holds rs' (vs.map fun v => some (nameData v.varname)) := by
  induction vs generalizing rpt₁ f n rs pcs with
  | nil =>
    rw [List.length_nil, inGroup_zero]
    rw [List.length_nil, List.replicate_zero] at hrs
    rw [List.length_nil, Nat.zero_mul, List.replicate_zero] at hpcs
    refine ⟨rpt₁, [], Yields.forUpTo_zero _ _ _, ?_, .refl rpt₁, .nil⟩
    rw [← hrs, show pcRanges [] = [] from rfl, ← hpcs]
    exact h
  | cons v vs ih =>
    rw [List.flatMap_cons, List.length_append] at hlen
    rw [List.length_cons, inGroup_succ] at hroom ⊢
    rw [← add_assoc] at hroom
    rw [List.length_cons, List.replicate_succ] at hrs
    rw [List.length_cons, Nat.succ_mul, List.replicate_succ, List.replicate_succ] at hpcs
    obtain ⟨rpt₂, r, hone, hupd, hgrows, hr⟩ := h.after_locvar hid v (by omega) hroom.left hrs hpcs
      hlength (vs.flatMap dumpLocVar ++ rest)
    obtain ⟨rpt₃, rs', hloop, hupd', hgrows', hrs'⟩ := ih (by omega) hupd hroom (rs ++ [some r])
      (pcs ++ [some v.startpc, some v.endpc]) (by simp; omega) (by simp) (by simp)
    rw [List.length_append, List.length_singleton] at hloop
    rw [List.append_assoc, List.append_assoc, List.singleton_append, add_assoc] at hupd'
    refine ⟨rpt₃, some r :: rs', ?_, hupd', hgrows.trans hgrows', .cons (hr.mono hgrows') hrs'⟩
    rw [List.flatMap_cons, List.append_assoc]
    exact hone.forUpTo_succ hloop

theorem Report.Room.size_le {g : Group} {m : Nat} (h : rpt.Room (n + inGroup g m)) :
    m ≤ 32 * 1024 := by
  have := h g
  rw [Pi.add_apply, inGroup_self] at this
  omega

/-- The local variables are read back. -/
theorem Updates.after_locvars (h : Updates id rpt rpt₁ f n) (hid : id < 1024) {vs : List LocVar}
    (hlen : (vs.flatMap dumpLocVar).length < 2 ^ 32)
    (hroom : rpt.Room (n + inGroup .strs vs.length)) (hempty₂ : f.locvars2 = [])
    (hempty : f.locvars = []) (rest : List UInt8) :
    ∃ rpt₂ rs, Yields (loadLocvars id)
        ⟨dumpSize vs.length ++ vs.flatMap dumpLocVar ++ rest, rpt₁⟩ () ⟨rest, rpt₂⟩ ∧
      Updates id rpt rpt₂
        { f with sizelocvars := vs.length, locvars2 := rs, locvars := pcRanges vs }
        (n + inGroup .strs vs.length) ∧
      rpt₁.Grows rpt₂ (inGroup .strs vs.length) ∧
      List.Forall₂ rpt₂.Holds rs (vs.map fun v => some (nameData v.varname)) := by
  unfold loadLocvars dumpSize
  rw [List.append_assoc]
  have hsize := hroom.size_le
  have hn : (BitVec.ofNat 32 vs.length).toNat = vs.length := size_toNat (by omega)
  have hint : (BitVec.ofNat 32 vs.length).toInt = vs.length := size_toInt (by omega)
  obtain ⟨rpt₂, hset, hupd, hgrows⟩ := h.after_setFunc hid
    (fun f => { f with sizelocvars := (BitVec.ofNat 32 vs.length).toNat })
    (vs.flatMap dumpLocVar ++ rest)
  rw [hn] at hupd
  by_cases hvs : vs = []
  · subst hvs
    obtain ⟨rpt₃, rs, hloop, hupd', hgrows', hrs⟩ := hupd.after_locvarLoop hid [] hlen rest hroom
      [] [] rfl hempty₂ hempty
    refine ⟨rpt₃, rs, (loads_int rpt₁ _ _).bind (hset.bind ?_), hupd',
      hgrows.zero_trans hgrows', hrs⟩
    rw [hint, if_neg (by simp)]
    exact hloop
  · have hpos := List.length_pos_iff.2 hvs
    have hslots : List.replicate ((BitVec.ofNat 32 vs.length).toNat * 8 % 2 ^ 32 / 4) none =
        (List.replicate (vs.length * 2) none : List (Option CInt)) := by
      rw [hn, Nat.mod_eq_of_lt (by omega)]
      congr 1
      omega
    obtain ⟨rpt₃, hset', hupd', hgrows'⟩ := hupd.after_setFunc hid
      (fun f => { f with
        locvars2 := slots (BitVec.ofNat 32 vs.length) 4
        locvars := List.replicate ((BitVec.ofNat 32 vs.length).toNat * 8 % 2 ^ 32 / 4) none })
      (vs.flatMap dumpLocVar ++ rest)
    obtain ⟨rpt₄, rs, hloop, hupd'', hgrows'', hrs⟩ := hupd'.after_locvarLoop hid vs hlen rest hroom
      [] [] rfl (slots_size (by omega)) hslots
    refine ⟨rpt₄, rs, (loads_int rpt₁ _ _).bind (hset.bind ?_), hupd'',
      hgrows.zero_trans (hgrows'.zero_trans hgrows''), hrs⟩
    rw [hint, if_pos (by omega)]
    exact hset'.bind hloop

/-- The loop over the names of the upvalues. -/
theorem Updates.after_nameLoop (hid : id < 1024) (ss : List (Option Str))
    (hlen : (ss.flatMap dumpString).length < 2 ^ 32) (rest : List UInt8)
    (h : Updates id rpt rpt₁ f n) (hroom : rpt.Room (n + inGroup .strs ss.length))
    (rs : List (Option Ref)) (hrs : f.upvalues2 = rs ++ List.replicate ss.length none) :
    ∃ rpt₂ rs', Yields (forUpTo (loadUpvalueName id) ss.length rs.length)
        ⟨ss.flatMap dumpString ++ rest, rpt₁⟩ () ⟨rest, rpt₂⟩ ∧
      Updates id rpt rpt₂ { f with upvalues2 := rs ++ rs' } (n + inGroup .strs ss.length) ∧
      rpt₁.Grows rpt₂ (inGroup .strs ss.length) ∧
      List.Forall₂ rpt₂.Holds rs' (ss.map fun s => some (nameData s)) := by
  induction ss generalizing rpt₁ f n rs with
  | nil =>
    rw [List.length_nil, inGroup_zero]
    rw [List.length_nil, List.replicate_zero] at hrs
    refine ⟨rpt₁, [], Yields.forUpTo_zero _ _ _, ?_, .refl rpt₁, .nil⟩
    rw [← hrs]
    exact h
  | cons s ss ih =>
    rw [List.flatMap_cons, List.length_append] at hlen
    rw [List.length_cons, inGroup_succ] at hroom ⊢
    rw [← add_assoc] at hroom
    rw [List.length_cons, List.replicate_succ] at hrs
    have hs : strLen s < 2 ^ 32 := (strLen_le s).trans_lt (by omega)
    obtain ⟨rpt₂, r, hload, hupd, hgrows, hr⟩ :=
      h.after_name hs hroom.left (ss.flatMap dumpString ++ rest)
    obtain ⟨rpt₃, hset, hupd', hgrows'⟩ := hupd.after_setSlot hid (·.upvalues2)
      (fun f l => { f with upvalues2 := l }) (i := rs.length) (by simp [hrs]) r
      (ss.flatMap dumpString ++ rest)
    have hrs' : f.upvalues2.set rs.length (some r) =
        (rs ++ [some r]) ++ List.replicate ss.length none := by simp [hrs]
    obtain ⟨rpt₄, rs', hloop, hupd'', hgrows'', hrs''⟩ := ih (by omega) hupd' hroom _ hrs'
    rw [List.length_append, List.length_singleton] at hloop
    rw [List.append_assoc, List.singleton_append, add_assoc] at hupd''
    refine ⟨rpt₄, some r :: rs', ?_, hupd'', (hgrows.trans hgrows').trans hgrows'',
      .cons ((hr.mono hgrows').mono hgrows'') hrs''⟩
    rw [List.flatMap_cons, List.append_assoc]
    exact (hload.bind hset).forUpTo_succ hloop

/-- The names of the upvalues are read back. -/
theorem Updates.after_upvalueNames (h : Updates id rpt rpt₁ f n) (hid : id < 1024)
    {ss : List (Option Str)} (hlen : (ss.flatMap dumpString).length < 2 ^ 32)
    (hroom : rpt.Room (n + inGroup .strs ss.length)) (hempty : f.upvalues2 = [])
    (rest : List UInt8) :
    ∃ rpt₂ rs, Yields (loadUpvalueNames id)
        ⟨dumpSize ss.length ++ ss.flatMap dumpString ++ rest, rpt₁⟩ () ⟨rest, rpt₂⟩ ∧
      Updates id rpt rpt₂ { f with sizeupvalues2 := ss.length, upvalues2 := rs }
        (n + inGroup .strs ss.length) ∧
      rpt₁.Grows rpt₂ (inGroup .strs ss.length) ∧
      List.Forall₂ rpt₂.Holds rs (ss.map fun s => some (nameData s)) := by
  unfold loadUpvalueNames dumpSize
  rw [List.append_assoc]
  have hsize := hroom.size_le
  have hn : (BitVec.ofNat 32 ss.length).toNat = ss.length := size_toNat (by omega)
  have hint : (BitVec.ofNat 32 ss.length).toInt = ss.length := size_toInt (by omega)
  obtain ⟨rpt₂, hset, hupd, hgrows⟩ := h.after_setFunc hid
    (fun f => { f with sizeupvalues2 := (BitVec.ofNat 32 ss.length).toNat })
    (ss.flatMap dumpString ++ rest)
  rw [hn] at hupd
  by_cases hss : ss = []
  · subst hss
    obtain ⟨rpt₃, rs, hloop, hupd', hgrows', hrs⟩ :=
      hupd.after_nameLoop hid [] hlen rest hroom [] hempty
    refine ⟨rpt₃, rs, (loads_int rpt₁ _ _).bind (hset.bind ?_), hupd',
      hgrows.zero_trans hgrows', hrs⟩
    rw [hint, if_neg (by simp)]
    exact hloop
  · have hpos := List.length_pos_iff.2 hss
    obtain ⟨rpt₃, hset', hupd', hgrows'⟩ := hupd.after_setFunc hid
      (fun f => { f with upvalues2 := slots (BitVec.ofNat 32 ss.length) 4 })
      (ss.flatMap dumpString ++ rest)
    obtain ⟨rpt₄, rs, hloop, hupd'', hgrows'', hrs⟩ :=
      hupd'.after_nameLoop hid ss hlen rest hroom [] (slots_size (by omega))
    refine ⟨rpt₄, rs, (loads_int rpt₁ _ _).bind (hset.bind ?_), hupd'',
      hgrows.zero_trans (hgrows'.zero_trans hgrows''), hrs⟩
    rw [hint, if_pos (by omega)]
    exact hset'.bind hloop

/-- `LoadDebug` reads the debug information back. -/
theorem Updates.after_debug (h : Updates id rpt rpt₁ f n) (hid : id < 1024) {ls : List CInt}
    {vs : List LocVar} {ss : List (Option Str)} (hlen : (dumpTables ls vs ss).length < 2 ^ 32)
    (hroom : rpt.Room (n + inGroup .lineNumbers 1 + inGroup .strs vs.length +
      inGroup .strs ss.length))
    (hempty₂ : f.locvars2 = []) (hempty : f.locvars = []) (hempty' : f.upvalues2 = [])
    (rest : List UInt8) :
    ∃ rpt₂ rl rv rs, Yields (loadDebug id) ⟨dumpTables ls vs ss ++ rest, rpt₁⟩ () ⟨rest, rpt₂⟩ ∧
      Updates id rpt rpt₂
        { f with
          sizelineinfo := ls.length, lineinfo := some rl
          sizelocvars := vs.length, locvars2 := rv, locvars := pcRanges vs
          sizeupvalues2 := ss.length, upvalues2 := rs }
        (n + inGroup .lineNumbers 1 + inGroup .strs vs.length + inGroup .strs ss.length) ∧
      rpt₁.Grows rpt₂
        (inGroup .lineNumbers 1 + inGroup .strs vs.length + inGroup .strs ss.length) ∧
      rpt₂.Holds (some rl) (some (lineData ls)) ∧
      List.Forall₂ rpt₂.Holds rv (vs.map fun v => some (nameData v.varname)) ∧
      List.Forall₂ rpt₂.Holds rs (ss.map fun s => some (nameData s)) := by
  simp only [dumpTables, List.length_append] at hlen
  have hls : (ls.flatMap dumpInt).length < 2 ^ 32 := by omega
  have hvs : (vs.flatMap dumpLocVar).length < 2 ^ 32 := by omega
  have hss : (ss.flatMap dumpString).length < 2 ^ 32 := by omega
  obtain ⟨rpt₂, rl, hload₁, hupd₁, hgrows₁, hl⟩ := h.after_lineinfo hid hls hroom.left.left
    ((dumpSize vs.length ++ vs.flatMap dumpLocVar) ++
      ((dumpSize ss.length ++ ss.flatMap dumpString) ++ rest))
  obtain ⟨rpt₃, rv, hload₂, hupd₂, hgrows₂, hv⟩ := hupd₁.after_locvars hid hvs hroom.left
    hempty₂ hempty ((dumpSize ss.length ++ ss.flatMap dumpString) ++ rest)
  obtain ⟨rpt₄, rs, hload₃, hupd₃, hgrows₃, hs⟩ :=
    hupd₂.after_upvalueNames hid hss hroom hempty' rest
  refine ⟨rpt₄, rl, rv, rs, ?_, hupd₃, (hgrows₁.trans hgrows₂).trans hgrows₃,
    (hl.mono hgrows₂).mono hgrows₃, Report.Holds.mono_all hv hgrows₃, hs⟩
  rw [dumpTables, List.append_assoc (dumpSize ls.length ++ _), List.append_assoc (dumpSize vs.length ++ _)]
  exact hload₁.bind (hload₂.bind hload₃)

/-! ## The start of a function -/

/-- The entry for the instructions. -/
def codeData (code : List (BitVec 32)) : LuacData vm :=
  ⟨.data (some (code.flatMap dumpInt)), code.length * 4, 0, 0⟩

theorem loads_code (rpt : Report vm) (rest : List UInt8) {code : List (BitVec 32)}
    (hlen : (code.flatMap dumpInt).length < 2 ^ 32) :
    Yields loadCode ⟨dumpCode code ++ rest, rpt⟩ (code.flatMap dumpInt, code.length * 4)
      ⟨rest, rpt⟩ := by
  have hbytes := length_flatMap_dumpInt code
  have hn : (BitVec.ofNat 32 code.length).toNat * 4 % 2 ^ 32 = code.length * 4 := by
    rw [size_toNat (by omega), Nat.mod_eq_of_lt (by omega)]
  unfold loadCode dumpCode dumpSize
  rw [List.append_assoc]
  refine (loads_int rpt _ _).bind ?_
  simp only [hn]
  exact (loads_block rpt rest hbytes).bind (Yields.pure _ _)

/-- The bytes before the constants of a function. -/
def dumpPrologue (b : Body vm) (source : Option Str) : List UInt8 :=
  dumpString source ++ (dumpInt b.linedefined ++ (dumpInt b.lastlinedefined ++
    ([b.numparams] ++ ([b.isVararg] ++ ([b.maxstacksize] ++ dumpCode b.code)))))

/-- The record after the start of function `b` has been read. -/
def LufFunc.withPrologue (f : LufFunc) (b : Body vm) (source code : Ref) : LufFunc :=
  { f with
    source := some source
    linedefined := b.linedefined
    lastlinedefined := b.lastlinedefined
    numparams := b.numparams
    isVararg := b.isVararg
    maxstacksize := b.maxstacksize
    code := some code
    sizecode := b.code.length }

/-- The start of a function is read back, and the function is counted. -/
theorem loads_prologue (rpt : Report vm) (hid : id < 1024) (b : Body vm) (source : Option Str)
    (hlen : (dumpPrologue b source).length < 2 ^ 32)
    (hroom : rpt.Room (inGroup .strs 1 + inGroup .codes 1)) (rest : List UInt8) :
    ∃ rpt' rs rc, Yields (loadPrologue id) ⟨dumpPrologue b source ++ rest, rpt⟩ () ⟨rest, rpt'⟩ ∧
      Updates id { rpt with funcCount := rpt.funcCount + 1 } rpt'
        ((rpt.lufFuncs id).withPrologue b rs rc) (inGroup .strs 1 + inGroup .codes 1) ∧
      rpt'.Holds (some rs) (some (nameData source)) ∧
      rpt'.Holds (some rc) (some (codeData b.code)) := by
  simp only [dumpPrologue, List.length_append] at hlen
  have hsource : strLen source < 2 ^ 32 := (strLen_le source).trans_lt (by omega)
  have hcode : (b.code.flatMap dumpInt).length < 2 ^ 32 := by
    rw [dumpCode, List.length_append] at hlen
    omega
  have h₀ := Updates.refl id { rpt with funcCount := rpt.funcCount + 1 }
  have hroom₀ : ({ rpt with funcCount := rpt.funcCount + 1 } : Report vm).Room
      (0 + inGroup .strs 1 + inGroup .codes 1) := by
    rw [zero_add]
    exact hroom
  -- the bytes left after each field
  let bs₅ := dumpCode b.code ++ rest
  let bs₄ := [b.maxstacksize] ++ bs₅
  let bs₃ := [b.isVararg] ++ bs₄
  let bs₂ := [b.numparams] ++ bs₃
  let bs₁ := dumpInt b.lastlinedefined ++ bs₂
  let bs₀ := dumpInt b.linedefined ++ bs₁
  obtain ⟨rpt₁, rs, hname, h₁, -, hrs⟩ := h₀.after_name hsource hroom₀.left bs₀
  obtain ⟨rpt₂, hset₂, h₂, hg₂⟩ := h₁.after_setFunc hid (fun f => { f with source := some rs }) bs₀
  obtain ⟨rpt₃, hset₃, h₃, hg₃⟩ :=
    h₂.after_setFunc hid (fun f => { f with linedefined := b.linedefined }) bs₁
  obtain ⟨rpt₄, hset₄, h₄, hg₄⟩ :=
    h₃.after_setFunc hid (fun f => { f with lastlinedefined := b.lastlinedefined }) bs₂
  obtain ⟨rpt₅, hset₅, h₅, hg₅⟩ :=
    h₄.after_setFunc hid (fun f => { f with numparams := b.numparams }) bs₃
  obtain ⟨rpt₆, hset₆, h₆, hg₆⟩ :=
    h₅.after_setFunc hid (fun f => { f with isVararg := b.isVararg }) bs₄
  obtain ⟨rpt₇, hset₇, h₇, hg₇⟩ :=
    h₆.after_setFunc hid (fun f => { f with maxstacksize := b.maxstacksize }) bs₅
  obtain ⟨rpt₈, rc, hpush, h₈, hg₈, hrc⟩ := h₇.after_push (codeData b.code) hroom₀ rest
  obtain ⟨rpt₉, hset₉, h₉, hg₉⟩ := h₈.after_setFunc hid
    (fun f => { f with code := some rc, sizecode := b.code.length }) rest
  have hfunc : rpt₉.lufFuncs id = (rpt.lufFuncs id).withPrologue b rs rc := h₉.func
  have hgrows := h₉.grows
  rw [zero_add] at hgrows
  have hlater := hg₂.zero_trans (hg₃.zero_trans (hg₄.zero_trans (hg₅.zero_trans
    (hg₆.zero_trans (hg₇.zero_trans hg₈)))))
  refine ⟨rpt₉, rs, rc, ?_, ⟨hgrows, hfunc, h₉.frame, h₉.count⟩, (hrs.mono hlater).mono hg₉,
    hrc.mono hg₉⟩
  have hbytes : dumpPrologue b source ++ rest = dumpString source ++ bs₀ := by
    simp only [dumpPrologue, bs₀, bs₁, bs₂, bs₃, bs₄, bs₅, List.append_assoc]
  have hcount : Yields (modify fun s : St vm => { s with rpt.funcCount := s.rpt.funcCount + 1 } :
      Load vm Unit) ⟨dumpString source ++ bs₀, rpt⟩ ()
      ⟨dumpString source ++ bs₀, { rpt with funcCount := rpt.funcCount + 1 }⟩ := rfl
  rw [hbytes]
  refine hcount.bind (hname.bind (hset₂.bind ?_))
  refine (loads_int rpt₂ bs₁ _).bind (hset₃.bind ?_)
  refine (loads_int rpt₃ bs₂ _).bind (hset₄.bind ?_)
  refine (loads_byte rpt₄ bs₃ _).bind (hset₅.bind ?_)
  refine (loads_byte rpt₅ bs₄ _).bind (hset₆.bind ?_)
  refine (loads_byte rpt₆ bs₅ _).bind (hset₇.bind ?_)
  refine (loads_code rpt₇ rest hcode).bind (hpush.bind ?_)
  simp only [Nat.mul_div_cancel _ (show 0 < 4 by decide)]
  exact hset₉

end

/-! ## Reading backwards -/

theorem of_loadBlock {file bs : List UInt8} {rpt : Report vm} {n : Nat} {st : St vm}
    (h : Yields (loadBlock n) ⟨file, rpt⟩ bs st) :
    ∃ rest, file = bs ++ rest ∧ bs.length = n ∧ st = ⟨rest, rpt⟩ := by
  unfold Yields loadBlock at h
  split at h
  · rename_i hle
    simp only [Except.ok.injEq, Prod.mk.injEq] at h
    obtain ⟨rfl, rfl⟩ := h
    exact ⟨file.drop n, (List.take_append_drop n file).symm, List.length_take_of_le hle, rfl⟩
  · cases h

theorem of_loadInteger {st st' : St vm} {x : Word vm} (h : Yields loadInteger st x st') :
    ∃ bs, Yields (loadBlock vm.size) st bs st' ∧ x = wordOf vm bs := by
  obtain ⟨bs, st₁, hblock, hpure⟩ := h.of_bind
  obtain ⟨rfl, rfl⟩ := hpure.unique (Yields.pure _ _)
  exact ⟨bs, hblock, rfl⟩

end LuatosPc.Luac
