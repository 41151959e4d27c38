import LuatosPc.Luac.Entries

/-!
# The tables of the analyser

A report has a table of 1024 functions, each with 1024 places for the functions inside it, and
one of 32 · 1024 entries in each group.  The reader goes by the counts that it finds in the
file, and asks for room nowhere.

* `Takes` — a part of the reader works off some bytes, and adds so many entries and functions;
  or a store leaves its table.  `Takes.bind` — one part after another.
* `worksOff` — a dumped function is worked off like that, by induction over its tree.
* `Chunk` — a luac chunk; `chunk_overrun_iff` — it leaves the tables exactly if its tree does
  not fit; `Chunk.analysed` — and if it fits, the report has the entries of the tree.
-/

namespace LuatosPc.Luac

open LuatosPc.Bytes

variable {vm : Vm}

/-! ## What a part of the reader adds -/

/-- The report keeps to the sizes of its tables. -/
structure Report.InTables (rpt : Report vm) : Prop where
  functions : rpt.funcCount ≤ 1024
  entries : ∀ g, (rpt.group g).length ≤ 32 * 1024

/-- There are `n` entries and `k` functions more, all inside the tables. -/
structure Adds (rpt rpt' : Report vm) (n : Group → Nat) (k : Nat) : Prop where
  entries : ∀ g, (rpt'.group g).length = (rpt.group g).length + n g
  functions : rpt'.funcCount = rpt.funcCount + k
  inTables : rpt.InTables → rpt'.InTables
  lines : rpt.LinesHeld → rpt'.LinesHeld

theorem Adds.refl (rpt : Report vm) : Adds rpt rpt 0 0 := ⟨fun _ => rfl, rfl, id, id⟩

theorem Adds.trans {rpt rpt₁ rpt₂ : Report vm} {n n' : Group → Nat} {k k' : Nat}
    (h₁ : Adds rpt rpt₁ n k) (h₂ : Adds rpt₁ rpt₂ n' k') : Adds rpt rpt₂ (n + n') (k + k') where
  entries := fun g => by rw [h₂.entries, h₁.entries, Nat.add_assoc, Pi.add_apply]
  functions := by rw [h₂.functions, h₁.functions, Nat.add_assoc]
  inTables := h₂.inTables ∘ h₁.inTables
  lines := h₂.lines ∘ h₁.lines

/-- **The program works off the bytes**, returns a value with property `P` and adds `n` entries
and `k` functions, or a store leaves its table. -/
def Takes {α : Type} (m : Load vm α) (bs : List UInt8) (P : α → Prop) (n : Group → Nat) (k : Nat) :
    Prop :=
  ∀ rpt rest, m ⟨bs ++ rest, rpt⟩ = .error .overrun ∨
    ∃ a rpt', Yields m ⟨bs ++ rest, rpt⟩ a ⟨rest, rpt'⟩ ∧ P a ∧ Adds rpt rpt' n k

section

variable {α β : Type} {m : Load vm α} {f : α → Load vm β} {bs bs' : List UInt8} {P : α → Prop}
  {Q : β → Prop} {n n' : Group → Nat} {k k' : Nat}

theorem bind_error {e : Fault} {s : St vm} (h : m s = .error e) (f : α → Load vm β) :
    (m >>= f) s = .error e := by
  show (m s >>= fun p => f p.1 p.2) = _
  rw [h]
  rfl

/-- **One part after another.** -/
theorem Takes.bind (hm : Takes m bs P n k) (hf : ∀ a, P a → Takes (f a) bs' Q n' k') :
    Takes (m >>= f) (bs ++ bs') Q (n + n') (k + k') := by
  intro rpt rest
  rw [List.append_assoc]
  obtain herr | ⟨a, rpt₁, hyields, hP, hadds⟩ := hm rpt (bs' ++ rest)
  · exact Or.inl (bind_error herr f)
  rw [hyields.bind_eq]
  obtain herr | ⟨b, rpt₂, hyields', hQ, hadds'⟩ := hf a hP rpt₁ rest
  · exact Or.inl herr
  · exact Or.inr ⟨b, rpt₂, (hyields.bind_eq f).trans hyields', hQ, hadds.trans hadds'⟩

/-- A part that adds no function, and what follows. -/
theorem Takes.part_bind (hm : Takes m bs P n 0) (hf : ∀ a, P a → Takes (f a) bs' Q n' k) :
    Takes (m >>= f) (bs ++ bs') Q (n + n') k := by
  have h := hm.bind hf
  rwa [Nat.zero_add] at h

/-- Something is read, and what follows. -/
theorem Takes.read_bind {x : α} (hm : Takes m bs (· = x) 0 0) (hf : Takes (f x) bs' Q n k) :
    Takes (m >>= f) (bs ++ bs') Q n k := by
  have h := hm.part_bind fun a (ha : a = x) => ha ▸ hf
  rwa [zero_add] at h

/-- Something is read, and what follows reads nothing. -/
theorem Takes.read_bind_last {x : α} (hm : Takes m bs (· = x) 0 0) (hf : Takes (f x) [] Q n k) :
    Takes (m >>= f) bs Q n k := by
  have h := hm.read_bind hf
  rwa [List.append_nil] at h

/-- A part that reads nothing and adds nothing, and what follows. -/
theorem Takes.store_bind (hm : Takes m [] P 0 0) (hf : ∀ a, P a → Takes (f a) bs Q n k) :
    Takes (m >>= f) bs Q n k := by
  have h := hm.part_bind hf
  rwa [List.nil_append, zero_add] at h

/-- A part, and then one that reads nothing and adds nothing. -/
theorem Takes.bind_store (hm : Takes m bs P n k) (hf : ∀ a, P a → Takes (f a) [] Q 0 0) :
    Takes (m >>= f) bs Q n k := by
  have h := hm.bind hf
  rwa [List.append_nil, add_zero, Nat.add_zero] at h

theorem Takes.imp {P' : α → Prop} (hm : Takes m bs P n k) (h : ∀ a, P a → P' a) :
    Takes m bs P' n k := by
  intro rpt rest
  refine (hm rpt rest).imp_right ?_
  rintro ⟨a, rpt', hyields, hP, hadds⟩
  exact ⟨a, rpt', hyields, h a hP, hadds⟩

theorem Takes.pure {a : α} (h : P a) : Takes (pure a : Load vm α) [] P 0 0 := fun rpt _ =>
  Or.inr ⟨a, rpt, rfl, h, Adds.refl rpt⟩

/-- Something that is read without an entry. -/
theorem Takes.of_loads {x : α} (h : ∀ rpt rest, Yields m ⟨bs ++ rest, rpt⟩ x ⟨rest, rpt⟩) :
    Takes m bs (· = x) 0 0 := fun rpt rest =>
  Or.inr ⟨x, rpt, h rpt rest, rfl, Adds.refl rpt⟩

end

/-! ## Stores and numbers -/

theorem takes_setFunc (id : Nat) (upd : LufFunc → LufFunc) :
    Takes (setFunc id upd : Load vm Unit) [] (fun _ => id < 1024) 0 0 := by
  intro rpt rest
  by_cases hid : id < 1024
  · exact Or.inr ⟨(), _, if_pos hid, hid, fun _ => rfl, rfl, fun h => ⟨h.1, h.2⟩, fun h => h⟩
  · exact Or.inl (if_neg hid)

theorem takes_setSlot {α : Type} (id : Nat) (block : LufFunc → List (Option α))
    (put : LufFunc → List (Option α) → LufFunc) (i : Nat) (x : α) :
    Takes (setSlot id block put i x : Load vm Unit) [] (fun _ => id < 1024) 0 0 := by
  intro rpt rest
  by_cases hi : i < (block (rpt.lufFuncs id)).length
  · have heq : (setSlot id block put i x : Load vm Unit) ⟨[] ++ rest, rpt⟩ =
        setFunc id (fun f => put f ((block f).set i (some x))) ⟨[] ++ rest, rpt⟩ := if_pos hi
    unfold Yields
    rw [heq]
    exact takes_setFunc id _ rpt rest
  · exact Or.inl (if_neg hi)

theorem takes_setP (id i r : Nat) :
    Takes (setP id i r : Load vm Unit) [] (fun _ => id < 1024) 0 0 := by
  intro rpt rest
  by_cases hi : i < 1024
  · have heq : (setP id i r : Load vm Unit) ⟨[] ++ rest, rpt⟩ =
        setFunc id (fun f => { f with p := Function.update f.p i (some r) }) ⟨[] ++ rest, rpt⟩ :=
      if_pos hi
    unfold Yields
    rw [heq]
    exact takes_setFunc id _ rpt rest
  · exact Or.inl (if_neg hi)

theorem takes_touch (g : Group) : Takes (touch g : Load vm Unit) [] (fun _ => True) 0 0 := by
  intro rpt rest
  by_cases hg : (rpt.group g).length < 32 * 1024
  · exact Or.inr ⟨(), rpt, if_pos hg, trivial, Adds.refl rpt⟩
  · exact Or.inl (if_neg hg)

/-- A new entry. -/
theorem takes_push (g : Group) (d : LuacData vm)
    (hline : g = .lineNumbers → d.block = none → d.len = 0) :
    Takes (push g d) [] (fun _ => True) (inGroup g 1) 0 := by
  intro rpt rest
  by_cases hg : (rpt.group g).length < 32 * 1024
  swap
  · exact Or.inl (if_neg hg)
  have hlen : ∀ g', ((rpt.pushed g d).group g').length = (rpt.group g').length + inGroup g 1 g' :=
    fun g' => (rpt.grows_pushed g d).length g'
  refine Or.inr ⟨_, rpt.pushed g d, if_pos hg, trivial, hlen, rfl, ?_, ?_⟩
  · rintro ⟨hfuncs, hroom⟩
    refine ⟨hfuncs, fun g' => ?_⟩
    rw [hlen]
    by_cases hgg : g' = g
    · subst hgg
      rw [inGroup_self]
      omega
    · rw [inGroup, if_neg hgg]
      exact hroom g'
  · intro hlines e he
    by_cases hgl : g = .lineNumbers
    · subst hgl
      have hmem : (rpt.pushed .lineNumbers d).group .lineNumbers =
          rpt.group .lineNumbers ++ [d] := by simp [Report.pushed]
      rw [hmem, List.mem_append, List.mem_singleton] at he
      rcases he with he | rfl
      · exact hlines e he
      · exact hline rfl
    · have hmem : (rpt.pushed g d).group .lineNumbers = rpt.group .lineNumbers :=
        Function.update_of_ne (Ne.symm hgl) _ _
      rw [hmem] at he
      exact hlines e he

theorem takes_int (x : CInt) : Takes (loadInt : Load vm CInt) (dumpInt x) (· = x) 0 0 :=
  .of_loads fun rpt rest => loads_int rpt rest x

theorem takes_byte (v : UInt8) : Takes (loadByte : Load vm UInt8) [v] (· = v) 0 0 :=
  .of_loads fun rpt rest => loads_byte rpt rest v

theorem takes_word (x : Word vm) :
    Takes (loadInteger : Load vm (Word vm)) (leBytes vm.size x.toNat) (· = x) 0 0 :=
  .of_loads fun rpt rest => loads_word rpt rest x

theorem takes_string {s : Option Str} (hs : strLen s < 2 ^ 32) :
    Takes (loadString : Load vm _) (dumpString s) (· = (strBlock s, strLen s)) 0 0 :=
  .of_loads fun rpt rest => loads_string rpt rest hs

/-! ## Names and constants -/

/-- An entry that is no line table. -/
theorem takes_entry {g : Group} (d : LuacData vm) (hg : g ≠ .lineNumbers) :
    Takes (push g d) [] (fun _ => True) (inGroup g 1) 0 :=
  takes_push g d fun h => absurd h hg

theorem takes_name {s : Option Str} (hs : strLen s < 2 ^ 32) :
    Takes (loadName : Load vm Ref) (dumpString s) (fun _ => True) (inGroup .strs 1) 0 :=
  (takes_string hs).read_bind_last (takes_entry _ (by decide))

/-- The entry for a constant, and the pointer to it. -/
theorem takes_constantEntry (id i : Nat) {g : Group} (d : LuacData vm) (hg : g ≠ .lineNumbers) :
    Takes (do setK id i (← push g d); return true : Load vm Bool) [] (· = true) (inGroup g 1) 0 :=
  (takes_entry d hg).bind_store fun r _ =>
    (takes_setSlot id _ _ i r).store_bind fun _ _ => Takes.pure rfl

theorem takes_constant (id i : Nat) (c : Constant vm) (hlen : (dumpConstant c).length < 2 ^ 32) :
    Takes (loadConstant id i : Load vm Bool) (dumpConstant c) (· = true) c.entries 0 := by
  cases c with
  | nil => exact (takes_byte 0x00).read_bind_last (Takes.pure rfl)
  | boolean b =>
    refine (takes_byte 0x01).read_bind ((takes_byte (if b then 1 else 0)).read_bind_last ?_)
    exact takes_constantEntry id i _ (by decide)
  | number x =>
    refine (takes_byte 0x03).read_bind ((takes_word x).read_bind_last ?_)
    exact takes_constantEntry id i _ (by decide)
  | integer x =>
    refine (takes_byte 0x13).read_bind ((takes_word x).read_bind_last ?_)
    exact takes_constantEntry id i _ (by decide)
  | shortString s =>
    have hs := strLen_lt_of_constant (.inl rfl) hlen
    refine (takes_byte 0x04).read_bind ((takes_string hs).read_bind_last ?_)
    exact takes_constantEntry id i _ (by decide)
  | longString s =>
    have hs := strLen_lt_of_constant (.inr rfl) hlen
    refine (takes_byte 0x14).read_bind ((takes_string hs).read_bind_last ?_)
    exact takes_constantEntry id i _ (by decide)

/-- The loop over the constants. -/
theorem takes_constantLoop (id : Nat) {cs : List (Constant vm)}
    (hlen : (cs.flatMap dumpConstant).length < 2 ^ 32) (i : Nat) :
    Takes (forWhile (loadConstant id) cs.length i : Load vm Unit) (cs.flatMap dumpConstant)
      (fun _ => True) (cs.map Constant.entries).sum 0 := by
  induction cs generalizing i with
  | nil => exact Takes.pure trivial
  | cons c cs ih =>
    rw [List.flatMap_cons, List.length_append] at hlen
    rw [List.flatMap_cons, List.map_cons, List.sum_cons]
    refine (takes_constant id i c (by omega)).part_bind ?_
    rintro _ rfl
    exact ih (by omega) (i + 1)

/-- A count is read and stored, then the rest. -/
theorem Takes.sized {β : Type} {id : Nat} {upd : CInt → LufFunc → LufFunc} {f : CInt → Load vm β}
    {bs : List UInt8} {P : β → Prop} {n : Group → Nat} {k : Nat} (size : Nat)
    (hf : Takes (f (BitVec.ofNat 32 size)) bs P n k) :
    Takes (do let x ← loadInt; setFunc id (upd x); f x) (dumpSize size ++ bs) P n k :=
  (takes_int (BitVec.ofNat 32 size)).read_bind ((takes_setFunc id _).store_bind fun _ _ => hf)

theorem takes_constants (id : Nat) {cs : List (Constant vm)} (hsize : cs.length < 2 ^ 30)
    (hlen : (cs.flatMap dumpConstant).length < 2 ^ 32) :
    Takes (loadConstants id : Load vm Unit) (dumpConstants cs) (fun _ => True)
      (cs.map Constant.entries).sum 0 := by
  refine Takes.sized cs.length ?_
  by_cases hcs : cs = []
  · subst hcs
    exact Takes.pure trivial
  · have hne : BitVec.ofNat 32 cs.length ≠ 0 := fun h0 =>
      hcs (List.length_eq_zero_iff.1 ((size_eq_zero (by omega)).1 h0))
    rw [if_neg hne]
    refine (takes_setFunc id _).store_bind fun _ _ => ?_
    rw [size_toInt (by omega)]
    exact takes_constantLoop id hlen 0

theorem takes_upvalues (id : Nat) {us : List Upvaldesc}
    (hlen : (upvaluePairs us).length < 2 ^ 32) :
    Takes (loadUpvalues id : Load vm Unit) (dumpUpvalues us) (fun _ => True) 0 0 := by
  have hpairs : (upvaluePairs us).length = us.length * 2 := by
    simp [upvaluePairs, List.length_flatMap]
  have hn : (BitVec.ofNat 32 us.length).toNat = us.length := size_toNat (by omega)
  refine Takes.sized us.length ?_
  by_cases hus : us = []
  · subst hus
    exact Takes.pure trivial
  · have hne : BitVec.ofNat 32 us.length ≠ 0 := fun h0 =>
      hus (List.length_eq_zero_iff.1 ((size_eq_zero (by omega)).1 h0))
    have hblock : Takes (loadBlock ((BitVec.ofNat 32 us.length).toNat * 2 % 2 ^ 32) : Load vm _)
        (upvaluePairs us) (· = upvaluePairs us) 0 0 :=
      .of_loads fun rpt rest => loads_block rpt rest (by rw [hn, hpairs]; omega)
    rw [if_neg hne]
    exact hblock.bind_store fun _ _ => (takes_setFunc id _).imp fun _ _ => trivial

/-! ## Debug information -/

/-- Things of at least `c` bytes, so many of them. -/
theorem length_mul_le_flatMap {α : Type} {dump : α → List UInt8} {c : Nat} {xs : List α}
    (h : ∀ x ∈ xs, c ≤ (dump x).length) : xs.length * c ≤ (xs.flatMap dump).length := by
  induction xs with
  | nil => simp
  | cons x xs ih =>
    obtain ⟨hx, hxs⟩ := List.forall_mem_cons.1 h
    have hle := ih hxs
    rw [List.flatMap_cons, List.length_append, List.length_cons, Nat.succ_mul]
    omega

theorem takes_lines {ls : List CInt} (hlen : ls.length * 4 < 2 ^ 32) :
    Takes (loadLines (BitVec.ofNat 32 ls.length) : Load vm _) (ls.flatMap dumpInt)
      (· = if ls = [] then none else some (ls.flatMap dumpInt)) 0 0 := by
  have hn : (BitVec.ofNat 32 ls.length).toNat = ls.length := size_toNat (by omega)
  unfold loadLines
  rw [size_toInt (by omega), hn, Nat.mod_eq_of_lt hlen]
  by_cases hls : ls = []
  · subst hls
    exact Takes.pure rfl
  · have hpos := List.length_pos_iff.2 hls
    have hblock : Takes (loadBlock (ls.length * 4) : Load vm _) (ls.flatMap dumpInt)
        (· = ls.flatMap dumpInt) 0 0 :=
      .of_loads fun rpt rest => loads_block rpt rest (length_flatMap_dumpInt ls)
    rw [if_pos (by omega), if_neg hls]
    refine (takes_touch _).store_bind fun _ _ => hblock.bind_store ?_
    rintro _ rfl
    exact Takes.pure rfl

theorem takes_lineinfo (id : Nat) {ls : List CInt} (hlen : (ls.flatMap dumpInt).length < 2 ^ 32) :
    Takes (loadLineinfo id : Load vm Unit) (dumpSize ls.length ++ ls.flatMap dumpInt)
      (fun _ => True) (inGroup .lineNumbers 1) 0 := by
  rw [length_flatMap_dumpInt] at hlen
  refine Takes.sized ls.length ((takes_lines hlen).read_bind_last ?_)
  refine (takes_push _ _ ?_).bind_store fun r _ => (takes_setFunc id _).imp fun _ _ => trivial
  -- without lines there is no block, and the length is 0
  intro _ hnone
  by_cases hls : ls = []
  · subst hls
    rfl
  · rw [LuacData.block, if_neg hls] at hnone
    cases hnone

theorem takes_locvar (id i : Nat) {v : LocVar} (hlen : (dumpLocVar v).length < 2 ^ 32) :
    Takes (loadLocvar id i : Load vm Unit) (dumpLocVar v) (fun _ => True) (inGroup .strs 1) 0 := by
  have hname : strLen v.varname < 2 ^ 32 := by
    have := strLen_le v.varname
    rw [dumpLocVar, List.length_append] at hlen
    omega
  have hlast : Takes (do
      setSlot id (·.locvars) (fun f l => { f with locvars := l }) (i * 2 + 1) (← loadInt) :
      Load vm Unit) (dumpInt v.endpc) (fun _ => True) 0 0 :=
    (takes_int _).bind_store fun x _ => (takes_setSlot id _ _ _ x).imp fun _ _ => trivial
  have hpcs : Takes (do
      setSlot id (·.locvars) (fun f l => { f with locvars := l }) (i * 2) (← loadInt)
      setSlot id (·.locvars) (fun f l => { f with locvars := l }) (i * 2 + 1) (← loadInt) :
      Load vm Unit) (dumpInt v.startpc ++ dumpInt v.endpc) (fun _ => True) 0 0 :=
    (takes_int _).read_bind ((takes_setSlot id _ _ _ _).store_bind fun _ _ => hlast)
  have h : Takes (loadLocvar id i : Load vm Unit) (dumpLocVar v) (fun _ => True)
      (inGroup .strs 1 + 0) 0 :=
    (takes_name hname).part_bind fun r _ => (takes_setSlot id _ _ i r).store_bind fun _ _ => hpcs
  rwa [add_zero] at h

/-- The loop over the local variables. -/
theorem takes_locvarLoop (id : Nat) {vs : List LocVar}
    (hlen : (vs.flatMap dumpLocVar).length < 2 ^ 32) (i : Nat) :
    Takes (forUpTo (loadLocvar id) vs.length i : Load vm Unit) (vs.flatMap dumpLocVar)
      (fun _ => True) (inGroup .strs vs.length) 0 := by
  induction vs generalizing i with
  | nil =>
    rw [List.length_nil, inGroup_zero]
    exact Takes.pure trivial
  | cons v vs ih =>
    rw [List.flatMap_cons, List.length_append] at hlen
    rw [List.flatMap_cons, List.length_cons, inGroup_succ]
    have hround : Takes (do loadLocvar id i; return true : Load vm Bool) (dumpLocVar v) (· = true)
        (inGroup .strs 1) 0 :=
      (takes_locvar id i (by omega)).bind_store fun _ _ => Takes.pure rfl
    refine hround.part_bind ?_
    rintro _ rfl
    exact ih (by omega) (i + 1)

theorem takes_locvars (id : Nat) {vs : List LocVar} (hsize : vs.length < 2 ^ 31)
    (hlen : (vs.flatMap dumpLocVar).length < 2 ^ 32) :
    Takes (loadLocvars id : Load vm Unit) (dumpSize vs.length ++ vs.flatMap dumpLocVar)
      (fun _ => True) (inGroup .strs vs.length) 0 := by
  refine Takes.sized vs.length ?_
  rw [size_toInt hsize, Int.toNat_natCast]
  have hloop : Takes (forUpTo (loadLocvar id) vs.length 0 : Load vm Unit) _ _ _ _ :=
    takes_locvarLoop id hlen 0
  split
  · exact (takes_setFunc id _).store_bind fun _ _ => hloop
  · exact hloop

/-- The loop over the names of the upvalues. -/
theorem takes_nameLoop (id : Nat) {ss : List (Option Str)}
    (hlen : (ss.flatMap dumpString).length < 2 ^ 32) (i : Nat) :
    Takes (forUpTo (loadUpvalueName id) ss.length i : Load vm Unit) (ss.flatMap dumpString)
      (fun _ => True) (inGroup .strs ss.length) 0 := by
  induction ss generalizing i with
  | nil =>
    rw [List.length_nil, inGroup_zero]
    exact Takes.pure trivial
  | cons s ss ih =>
    rw [List.flatMap_cons, List.length_append] at hlen
    rw [List.flatMap_cons, List.length_cons, inGroup_succ]
    have hs : strLen s < 2 ^ 32 := (strLen_le s).trans_lt (by omega)
    have hround : Takes (do loadUpvalueName id i; return true : Load vm Bool) (dumpString s)
        (· = true) (inGroup .strs 1) 0 := by
      refine Takes.bind_store (P := fun _ => True) ?_ fun _ _ => Takes.pure rfl
      exact (takes_name hs).bind_store fun r _ => (takes_setSlot id _ _ i r).imp fun _ _ => trivial
    refine hround.part_bind ?_
    rintro _ rfl
    exact ih (by omega) (i + 1)

theorem takes_upvalueNames (id : Nat) {ss : List (Option Str)} (hsize : ss.length < 2 ^ 31)
    (hlen : (ss.flatMap dumpString).length < 2 ^ 32) :
    Takes (loadUpvalueNames id : Load vm Unit) (dumpSize ss.length ++ ss.flatMap dumpString)
      (fun _ => True) (inGroup .strs ss.length) 0 := by
  refine Takes.sized ss.length ?_
  rw [size_toInt hsize, Int.toNat_natCast]
  have hloop : Takes (forUpTo (loadUpvalueName id) ss.length 0 : Load vm Unit) _ _ _ _ :=
    takes_nameLoop id hlen 0
  split
  · exact (takes_setFunc id _).store_bind fun _ _ => hloop
  · exact hloop

theorem takes_debug (id : Nat) {ls : List CInt} {vs : List LocVar} {ss : List (Option Str)}
    (hnames : ss.length < 2 ^ 31) (hlen : (dumpTables ls vs ss).length < 2 ^ 32) :
    Takes (loadDebug id : Load vm Unit) (dumpTables ls vs ss) (fun _ => True)
      (inGroup .lineNumbers 1 + (inGroup .strs vs.length + inGroup .strs ss.length)) 0 := by
  simp only [dumpTables, List.length_append] at hlen
  have hvars : vs.length * 2 ≤ (vs.flatMap dumpLocVar).length := by
    refine length_mul_le_flatMap fun v _ => ?_
    simp only [dumpLocVar, dumpInt, List.length_append, length_leBytes]
    omega
  refine (takes_lineinfo id (by omega)).part_bind fun _ _ => ?_
  refine (takes_locvars id (by omega) (by omega)).part_bind fun _ _ => ?_
  exact takes_upvalueNames id hnames (by omega)

/-! ## Functions -/

/-- The start of `LoadFunction`, behind the count of functions. -/
def loadFields (id : Nat) : Load vm Unit := do
  let r ← loadName
  setFunc id fun f => { f with source := some r }
  let x ← loadInt
  setFunc id fun f => { f with linedefined := x }
  let x ← loadInt
  setFunc id fun f => { f with lastlinedefined := x }
  let x ← loadByte
  setFunc id fun f => { f with numparams := x }
  let x ← loadByte
  setFunc id fun f => { f with isVararg := x }
  let x ← loadByte
  setFunc id fun f => { f with maxstacksize := x }
  let (buff, len) ← loadCode
  let r ← push .codes ⟨.data (some buff), len, 0, 0⟩
  setFunc id fun f => { f with code := some r, sizecode := len / 4 }

/-- The report with one function more. -/
def Report.counted (rpt : Report vm) : Report vm := { rpt with funcCount := rpt.funcCount + 1 }

theorem takes_fields (id : Nat) (b : Body vm) (source : Option Str)
    (hlen : (dumpPrologue b source).length < 2 ^ 32) :
    Takes (loadFields id : Load vm Unit) (dumpPrologue b source) (fun _ => id < 1024)
      (inGroup .strs 1 + inGroup .codes 1) 0 := by
  simp only [dumpPrologue, dumpCode, List.length_append] at hlen
  have hsource : strLen source < 2 ^ 32 := (strLen_le source).trans_lt (by omega)
  have hcode : Takes (loadCode : Load vm _) (dumpCode b.code)
      (· = (b.code.flatMap dumpInt, b.code.length * 4)) 0 0 :=
    .of_loads fun rpt rest => loads_code rpt rest (by omega)
  refine (takes_name hsource).part_bind fun r _ => (takes_setFunc id _).store_bind fun _ _ => ?_
  refine (takes_int _).read_bind ((takes_setFunc id _).store_bind fun _ _ => ?_)
  refine (takes_int _).read_bind ((takes_setFunc id _).store_bind fun _ _ => ?_)
  refine (takes_byte _).read_bind ((takes_setFunc id _).store_bind fun _ _ => ?_)
  refine (takes_byte _).read_bind ((takes_setFunc id _).store_bind fun _ _ => ?_)
  refine (takes_byte _).read_bind ((takes_setFunc id _).store_bind fun _ _ => ?_)
  refine hcode.read_bind_last ?_
  exact (takes_entry _ (by decide)).bind_store fun r _ => takes_setFunc id _

/-- `LoadFunction` as it is called: for the next record. -/
def loadNext (depth : Nat) : Load vm Nat := do
  let s ← get
  loadFunction depth s.rpt.funcCount

/-- The tree is worked off, whatever the depth left. -/
def WorksOff (strip : Bool) (f : Proto vm) : Prop :=
  ∀ (psource : Option Str) (depth : Nat), (dumpFunction strip psource f).length < 2 ^ 32 →
    Takes (loadNext depth : Load vm Nat) (dumpFunction strip psource f) (fun _ => True)
      (f.entries strip) f.size

/-- The loop over the nested functions. -/
theorem takes_protoLoop {strip : Bool} {fs : List (Proto vm)} (hfs : ∀ f ∈ fs, WorksOff strip f)
    (psource : Option Str) (depth id : Nat) (hlen : (dumpProtos strip psource fs).length < 2 ^ 32)
    (i : Nat) :
    Takes (forUpTo (fun i => do
        let s ← get
        setP id i (← loadFunction depth s.rpt.funcCount)) fs.length i : Load vm Unit)
      (dumpProtos strip psource fs) (fun _ => True) (Proto.entriesAll strip fs)
      (Proto.sizeAll fs) := by
  induction fs generalizing i with
  | nil => exact Takes.pure trivial
  | cons f fs ih =>
    obtain ⟨hf, hfs⟩ := List.forall_mem_cons.1 hfs
    rw [dumpProtos, List.length_append] at hlen
    rw [dumpProtos, Proto.entriesAll, Proto.sizeAll]
    have hbody : Takes (do
        let s ← get
        setP id i (← loadFunction depth s.rpt.funcCount) : Load vm Unit)
        (dumpFunction strip psource f) (fun _ => True) (f.entries strip) f.size := by
      have h := (hf psource depth (by omega)).bind_store fun r _ => takes_setP id i r
      simp only [loadNext, bind_assoc] at h
      exact h.imp fun _ _ => trivial
    have hround := hbody.bind_store fun _ _ => Takes.pure (P := (· = true)) (a := true) rfl
    refine hround.bind ?_
    rintro _ rfl
    exact ih hfs (by omega) (i + 1)

theorem length_mul_le_dumpProtos (strip : Bool) (psource : Option Str) (fs : List (Proto vm)) :
    fs.length * 2 ≤ (dumpProtos strip psource fs).length := by
  induction fs with
  | nil => simp
  | cons f fs ih =>
    have hf : 2 ≤ (dumpFunction strip psource f).length := by
      cases f with
      | mk b p =>
        simp only [dumpFunction, dumpInt, List.length_append, length_leBytes]
        omega
    rw [dumpProtos, List.length_append, List.length_cons, Nat.succ_mul]
    omega

theorem takes_protos {strip : Bool} {fs : List (Proto vm)} (hfs : ∀ f ∈ fs, WorksOff strip f)
    (psource : Option Str) (depth id : Nat)
    (hlen : (dumpProtos strip psource fs).length < 2 ^ 32) :
    Takes (loadProtos (loadFunction depth) id : Load vm Unit)
      (dumpSize fs.length ++ dumpProtos strip psource fs) (fun _ => True)
      (Proto.entriesAll strip fs) (Proto.sizeAll fs) := by
  have hsize := length_mul_le_dumpProtos strip psource fs
  refine Takes.sized fs.length ?_
  rw [size_toInt (by omega), Int.toNat_natCast]
  exact takes_protoLoop hfs psource depth id hlen 0

/-- `LoadFunction` behind the count of functions. -/
def loadCounted (depth id : Nat) : Load vm Nat := do
  loadFields id
  loadConstants id
  loadUpvalues id
  loadProtos (loadFunction depth) id
  loadDebug id
  return id

theorem loadNext_succ (depth : Nat) (bs : List UInt8) (rpt : Report vm) :
    loadNext (depth + 1) ⟨bs, rpt⟩ = loadCounted depth rpt.funcCount ⟨bs, rpt.counted⟩ := rfl

theorem takes_counted {strip : Bool} {b : Body vm} {p : List (Proto vm)}
    (hp : ∀ f ∈ p, WorksOff strip f) (psource : Option Str) (depth id : Nat)
    (hlen : (dumpFunction strip psource (.mk b p)).length < 2 ^ 32) :
    Takes (loadCounted depth id : Load vm Nat) (dumpFunction strip psource (.mk b p))
      (fun _ => id < 1024) ((Proto.mk b p).entries strip) (Proto.sizeAll p) := by
  have hbytes : dumpFunction strip psource (.mk b p) =
      dumpPrologue b (b.dumpedSource strip psource) ++ (dumpConstants b.k ++
        (dumpUpvalues b.upvalues ++ ((dumpSize p.length ++ dumpProtos strip b.source p) ++
          b.dumpDebug strip))) := by
    rw [dumpFunction_eq]
    simp only [dumpHead, List.append_assoc]
  have hentries : (Proto.mk b p).entries strip =
      inGroup .strs 1 + inGroup .codes 1 + ((b.k.map Constant.entries).sum +
        (0 + (Proto.entriesAll strip p + (inGroup .lineNumbers 1 +
          (inGroup .strs (b.dumpedLocvars strip).length +
            inGroup .strs (b.dumpedNames strip).length))))) := by
    simp only [Proto.entries, Body.headEntries, Body.debugEntries, zero_add, add_assoc]
  rw [hbytes, hentries]
  rw [hbytes] at hlen
  simp only [dumpConstants, dumpUpvalues, List.length_append] at hlen
  have hpairs : (upvaluePairs b.upvalues).length = b.upvalues.length * 2 := by
    simp [upvaluePairs, List.length_flatMap]
  have hnames : (b.dumpedNames strip).length ≤ b.upvalues.length := by
    unfold Body.dumpedNames
    split <;> simp
  refine (takes_fields id b _ (by omega)).part_bind fun _ hid => ?_
  refine (takes_constants id (Nat.lt_of_lt_of_le b.sizek_lt (by decide)) (by omega)).part_bind
    fun _ _ => ?_
  refine (takes_upvalues id (by omega)).part_bind fun _ _ => ?_
  show Takes _ _ _ _ (Proto.sizeAll p + 0)
  refine (takes_protos hp b.source depth id (by omega)).bind fun _ _ => ?_
  exact (takes_debug id (by omega) (by rw [← Body.dumpDebug]; omega)).bind_store fun _ _ =>
    Takes.pure hid

/-- **Every tree is worked off**, by induction over the tree. -/
theorem worksOff (strip : Bool) (f : Proto vm) : WorksOff strip f := by
  induction f using Proto.induct with
  | h b p ih =>
    intro psource depth hlen rpt rest
    cases depth with
    | zero => exact Or.inl rfl
    | succ depth =>
      unfold Yields
      rw [loadNext_succ]
      obtain herr | ⟨a, rpt', hyields, hid, hadds⟩ :=
        takes_counted ih psource depth rpt.funcCount hlen rpt.counted rest
      · exact Or.inl herr
      · refine Or.inr ⟨a, rpt', hyields, trivial, hadds.entries, ?_, ?_, hadds.lines⟩
        · rw [hadds.functions, Proto.size, ← Nat.add_assoc]
          rfl
        · intro hin
          exact hadds.inTables ⟨hid, hin.entries⟩

/-! ## Chunks -/

/-- A luac chunk, with what follows it in the file. -/
structure Chunk (vm : Vm) where
  strip : Bool
  proto : Proto vm
  rest : List UInt8

namespace Chunk

variable (c : Chunk vm)

def bytes : List UInt8 := luacHeader c.proto ++ (dumpFunction c.strip none c.proto ++ c.rest)

/-- The number of entries in a group. -/
def entries (g : Group) : Nat := c.proto.entries c.strip g

/-- The tables of a report have room for the chunk. -/
def Fits : Prop := c.proto.size ≤ 1024 ∧ ∀ g, c.entries g ≤ 32 * 1024

end Chunk

theorem inTables_zero : (Report.zero vm).InTables :=
  ⟨Nat.zero_le 1024, fun _ => Nat.zero_le (32 * 1024)⟩

theorem linesHeld_zero : (Report.zero vm).LinesHeld := by
  intro d hd
  cases hd

/-- A chunk that is read, has been read into the tables. -/
theorem Chunk.read_or_overrun (c : Chunk vm) (hmem : c.bytes.length < 2 ^ 32) :
    (luadbDoReportFile : Load vm Int) ⟨c.bytes, Report.zero vm⟩ = .error .overrun ∨
      c.Fits ∧ ∃ ptr rpt,
        Yields (luadbDoReportFile : Load vm Int) ⟨c.bytes, Report.zero vm⟩ 0 ⟨ptr, rpt⟩ ∧
        rpt.LinesHeld ∧ ∀ g, (rpt.group g).length = c.entries g := by
  have hlen : (dumpFunction c.strip none c.proto).length < 2 ^ 32 := by
    rw [Chunk.bytes, List.length_append, List.length_append] at hmem
    omega
  have hworks := worksOff c.strip c.proto none 1024 hlen (Report.zero vm) c.rest
  change (loadFunction 1024 0 : Load vm Nat) _ = _ ∨ ∃ a rpt', Yields (loadFunction 1024 0) _ _ _ ∧ _
    at hworks
  unfold Chunk.bytes
  obtain herr | ⟨id, rpt, hload, -, hadds⟩ := hworks
  · left
    rw [luadbDoReportFile_header]
    exact bind_error herr _
  · right
    obtain ⟨hfuncs, hroom⟩ := hadds.inTables inTables_zero
    have hsize : rpt.funcCount = c.proto.size := hadds.functions.trans (Nat.zero_add _)
    have hentries : ∀ g, (rpt.group g).length = c.entries g := fun g =>
      (hadds.entries g).trans (Nat.zero_add _)
    refine ⟨⟨hsize ▸ hfuncs, fun g => hentries g ▸ hroom g⟩, c.rest, rpt,
      loads_header c.proto hload, hadds.lines linesHeld_zero, hentries⟩

/-- **A chunk leaves the tables exactly if it does not fit.** -/
theorem chunk_overrun_iff (c : Chunk vm) (hmem : c.bytes.length < 2 ^ 32) :
    (luadbDoReportFile : Load vm Int) ⟨c.bytes, Report.zero vm⟩ = .error .overrun ↔ ¬ c.Fits := by
  have hlen : (dumpFunction c.strip none c.proto).length < 2 ^ 32 := by
    rw [Chunk.bytes, List.length_append, List.length_append] at hmem
    omega
  constructor
  · rintro herr ⟨hfuncs, hgroups⟩
    obtain ⟨rpt, hload, -⟩ := loads_chunk c.strip c.proto c.rest hfuncs hgroups hlen
    have hclash := herr.symm.trans hload
    cases hclash
  · intro hfits
    obtain herr | ⟨hfits', -⟩ := c.read_or_overrun hmem
    · exact herr
    · exact absurd hfits' hfits

/-- **A chunk that fits** is a file whose totals are exact. -/
theorem Chunk.analysed {c : Chunk vm} (hmem : c.bytes.length < 2 ^ 32) (hfits : c.Fits) :
    ∃ f : AnalysedFile vm, f.bytes = c.bytes ∧ f.report.LinesHeld ∧
      (∃ ptr, (luadbDoReportFile : Load vm Int) ⟨c.bytes, Report.zero vm⟩ =
        .ok (0, ⟨ptr, f.report⟩)) ∧
      ∀ g, (f.report.group g).length = c.entries g := by
  obtain herr | ⟨-, ptr, rpt, hyields, hlines, hentries⟩ := c.read_or_overrun hmem
  · exact absurd hfits ((chunk_overrun_iff c hmem).1 herr)
  · exact ⟨⟨c.bytes, rpt, ⟨0, ptr, hyields⟩⟩, rfl, hlines, ⟨ptr, hyields⟩, hentries⟩

end LuatosPc.Luac
