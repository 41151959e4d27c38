import LuatosPc.Luac.RoundTrip
import LuatosPc.Luac.Statistics

/-!
# What the reader puts into the groups, and the totals of it

The totals of a report are about the bytes of its entries, so they can be right only if the
entries have them.  The reader sees to that with one exception: for a line table with a count
below zero it notes a length and reads nothing.

* `Report.LinesHeld` — there is no such line table; `Keeps` — what the reader does to a report
  as long as there is none: entries are added that have their bytes, and no more bytes are held
  than were read.
* `keeps_function` — all of the reader is like that, by the parts it is made of.
* `AnalysedFile` — a file with the report that was read from it.
* `statistics_exact` — the totals of every set of files, and of the report over all of them, if
  there is no such line table; `statistics_negative_count` — files for which they go wrong.
-/

namespace LuatosPc.Luac

open LuatosPc.Bytes

variable {vm : Vm}

/-- A line table of some length has its bytes. -/
def Report.LinesHeld (rpt : Report vm) : Prop :=
  ∀ d ∈ rpt.group .lineNumbers, d.block = none → d.len = 0

/-- The number of bytes that the entries hold. -/
def Report.bytesHeld (rpt : Report vm) : Nat :=
  (lens (rpt.group .strs)).sum + (lens (rpt.group .codes)).sum + (lens (rpt.group .upvalues)).sum +
    (lens (rpt.group .lineNumbers)).sum

/-- The bytes that an entry of a group holds. -/
def LuacData.cost (g : Group) (d : LuacData vm) : Nat := if g = .numbers then 0 else d.len

/-- **What the reader does**, as long as all line tables have their bytes. -/
def Keeps (s s' : St vm) : Prop :=
  s'.rpt.LinesHeld → s.rpt.LinesHeld ∧ (s.rpt.Kept → s'.rpt.Kept) ∧
    s'.ptr.length + s'.rpt.bytesHeld ≤ s.ptr.length + s.rpt.bytesHeld

instance : Std.Refl (@Keeps vm) := ⟨fun _ h => ⟨h, id, le_rfl⟩⟩

instance : IsTrans (St vm) Keeps where
  trans s s₁ s₂ h₁ h₂ hlines := by
    obtain ⟨hlines₁, hkept₂, hle₂⟩ := h₂ hlines
    obtain ⟨hlines₀, hkept₁, hle₁⟩ := h₁ hlines₁
    exact ⟨hlines₀, hkept₂ ∘ hkept₁, hle₂.trans hle₁⟩

/-! ## Reading without new entries -/

theorem keeps_of_group_eq {s s' : St vm} (hgroup : s'.rpt.group = s.rpt.group)
    (hptr : s'.ptr.length ≤ s.ptr.length) : Keeps s s' := by
  intro hlines
  unfold Report.LinesHeld at hlines ⊢
  unfold Report.Kept Report.bytesHeld
  rw [hgroup] at hlines ⊢
  exact ⟨hlines, id, Nat.add_le_add_right hptr _⟩

/-- What reading a block leaves. -/
theorem of_loadBlock_st {s s' : St vm} {n : Nat} {bs : List UInt8}
    (h : Yields (loadBlock n) s bs s') :
    s'.rpt = s.rpt ∧ bs.length = n ∧ s'.ptr.length + n = s.ptr.length := by
  obtain ⟨rest, hfile, hlen, rfl⟩ := of_loadBlock h
  refine ⟨rfl, hlen, ?_⟩
  rw [hfile, List.length_append, hlen, Nat.add_comm]

theorem keeps_block (n : Nat) : Within Keeps (loadBlock n : Load vm (List UInt8)) := by
  constructor
  intro s bs s' h
  obtain ⟨hrpt, -, hptr⟩ := of_loadBlock_st h
  exact keeps_of_group_eq (by rw [hrpt]) (by omega)

theorem keeps_int : Within Keeps (loadInt : Load vm CInt) :=
  (keeps_block 4).bind fun _ => Within.pure _

theorem keeps_byte : Within Keeps (loadByte : Load vm UInt8) :=
  (keeps_block 1).bind fun _ => Within.pure _

theorem keeps_word : Within Keeps (loadInteger : Load vm (Word vm)) :=
  (keeps_block _).bind fun _ => Within.pure _

theorem keeps_skip (n : Nat) : Within Keeps (skip n : Load vm Unit) :=
  Within.modify fun s => keeps_of_group_eq rfl (by simp)

theorem keeps_setFunc (id : Nat) (upd : LufFunc → LufFunc) :
    Within Keeps (setFunc id upd : Load vm Unit) := by
  constructor
  intro s a s' h
  unfold Yields setFunc at h
  split at h
  · cases h
    exact keeps_of_group_eq rfl le_rfl
  · cases h

theorem keeps_setSlot {α : Type} (id : Nat) (block : LufFunc → List (Option α))
    (put : LufFunc → List (Option α) → LufFunc) (i : Nat) (x : α) :
    Within Keeps (setSlot id block put i x : Load vm Unit) := by
  constructor
  intro s a s' h
  unfold Yields setSlot at h
  split at h
  · exact (keeps_setFunc id _).related h
  · cases h

theorem keeps_setP (id i r : Nat) : Within Keeps (setP id i r : Load vm Unit) := by
  constructor
  intro s a s' h
  unfold Yields setP at h
  split at h
  · exact (keeps_setFunc id _).related h
  · cases h

/-! ## New entries -/

theorem of_push {g : Group} {d : LuacData vm} {s s' : St vm} {r : Ref} (h : Yields (push g d) s r s') :
    s'.ptr = s.ptr ∧
      s'.rpt.group = Function.update s.rpt.group g (s.rpt.group g ++ [d]) := by
  unfold Yields push at h
  split at h
  · cases h
    exact ⟨rfl, rfl⟩
  · cases h

theorem bytesHeld_push {rpt rpt' : Report vm} {g : Group} {d : LuacData vm}
    (h : rpt'.group = Function.update rpt.group g (rpt.group g ++ [d])) :
    rpt'.bytesHeld = rpt.bytesHeld + d.cost g := by
  unfold Report.bytesHeld LuacData.cost
  rw [h]
  cases g <;> simp [lens] <;> omega

/-- **A new entry** that has its bytes, which were read before. -/
theorem keeps_of_push {g : Group} {d : LuacData vm} {s s' : St vm}
    (hgroup : s'.rpt.group = Function.update s.rpt.group g (s.rpt.group g ++ [d]))
    (hnew : (g = .lineNumbers → d.block = none → d.len = 0) →
      d.Kept g ∧ s'.ptr.length + d.cost g ≤ s.ptr.length) : Keeps s s' := by
  have hold : ∀ g', ∀ e ∈ s.rpt.group g', e ∈ s'.rpt.group g' := by
    intro g' e he
    rw [hgroup]
    by_cases hg : g' = g
    · subst hg
      simp [he]
    · rwa [Function.update_of_ne hg]
  have hmem : d ∈ s'.rpt.group g := by
    rw [hgroup]
    simp
  intro hlines
  obtain ⟨hkept, hptr⟩ := hnew (by rintro rfl hblock; exact hlines d hmem hblock)
  refine ⟨fun e he => hlines e (hold _ e he), ?_, ?_⟩
  · intro hall g' e he
    rw [hgroup] at he
    by_cases hg : g' = g
    · subst hg
      rw [Function.update_self, List.mem_append, List.mem_singleton] at he
      rcases he with he | rfl
      · exact hall g' e he
      · exact hkept
    · rw [Function.update_of_ne hg] at he
      exact hall g' e he
  · rw [bytesHeld_push hgroup]
    omega

/-- The entry of what `m` reads has its bytes. -/
def Fills {α : Type} (g : Group) (m : Load vm α) (entry : α → LuacData vm) : Prop :=
  ∀ s a s', Yields m s a s' → s'.rpt.group = s.rpt.group ∧
    ((g = .lineNumbers → (entry a).block = none → (entry a).len = 0) →
      (entry a).Kept g ∧ s'.ptr.length + (entry a).cost g ≤ s.ptr.length)

/-- Something is read, an entry for it added, and the reader goes on. -/
theorem Fills.within {α β : Type} {g : Group} {m : Load vm α} {entry : α → LuacData vm}
    {k : α → Ref → Load vm β} (h : Fills g m entry) (hk : ∀ a r, Within Keeps (k a r)) :
    Within Keeps (m >>= fun a => push g (entry a) >>= k a) := by
  constructor
  intro s b s₃ hrun
  obtain ⟨a, s₁, hm, hrun⟩ := hrun.of_bind
  obtain ⟨r, s₂, hpush, hrun⟩ := hrun.of_bind
  obtain ⟨hgroup₁, hnew⟩ := h s a s₁ hm
  obtain ⟨hptr, hgroup₂⟩ := of_push hpush
  rw [hgroup₁] at hgroup₂
  have hkeeps : Keeps s s₂ := keeps_of_push hgroup₂ (by rwa [hptr])
  exact IsTrans.trans _ _ _ hkeeps ((hk a r).related hrun)

/-- The entry is neither a number nor a line table: it has its bytes, which were read. -/
theorem fills_of_held {α : Type} {g : Group} {m : Load vm α} {entry : α → LuacData vm}
    (hg : g ≠ .numbers) (h : ∀ s a s', Yields m s a s' → s'.rpt = s.rpt ∧ (entry a).Held ∧
      s'.ptr.length + (entry a).len ≤ s.ptr.length) : Fills g m entry := by
  intro s a s' hm
  obtain ⟨hrpt, hheld, hptr⟩ := h s a s' hm
  refine ⟨by rw [hrpt], fun _ => ?_⟩
  rw [LuacData.Kept, if_neg hg, LuacData.cost, if_neg hg]
  exact ⟨hheld, hptr⟩

/-- The entry of a number is marked. -/
theorem fills_of_marked {α : Type} {m : Load vm α} {entry : α → LuacData vm}
    (hmark : ∀ a, (entry a).mark ≠ 0)
    (h : ∀ s a s', Yields m s a s' → s'.rpt = s.rpt ∧ s'.ptr.length ≤ s.ptr.length) :
    Fills .numbers m entry := by
  intro s a s' hm
  obtain ⟨hrpt, hptr⟩ := h s a s' hm
  exact ⟨by rw [hrpt], fun _ => ⟨hmark a, hptr⟩⟩

/-! ## Strings, code and lines -/

theorem of_loadByte {s s' : St vm} {b : UInt8} (h : Yields loadByte s b s') :
    s'.rpt = s.rpt ∧ s'.ptr.length + 1 = s.ptr.length := by
  obtain ⟨bs, s₁, hblock, hpure⟩ := h.of_bind
  obtain ⟨hrpt, -, hptr⟩ := of_loadBlock_st hblock
  obtain ⟨-, rfl⟩ := hpure.unique (Yields.pure _ _)
  exact ⟨hrpt, hptr⟩

theorem of_loadInt {s s' : St vm} {n : CInt} (h : Yields loadInt s n s') :
    s'.rpt = s.rpt ∧ s'.ptr.length + 4 = s.ptr.length := by
  obtain ⟨bs, s₁, hblock, hpure⟩ := h.of_bind
  obtain ⟨hrpt, -, hptr⟩ := of_loadBlock_st hblock
  obtain ⟨-, rfl⟩ := hpure.unique (Yields.pure _ _)
  exact ⟨hrpt, hptr⟩

theorem of_loadInteger_st {s s' : St vm} {x : Word vm} (h : Yields loadInteger s x s') :
    s'.rpt = s.rpt ∧ s'.ptr.length ≤ s.ptr.length := by
  obtain ⟨bs, hblock, -⟩ := of_loadInteger h
  obtain ⟨hrpt, -, hptr⟩ := of_loadBlock_st hblock
  exact ⟨hrpt, by omega⟩

/-- The block of a string is as long as the string says, and all but one of its bytes were
read. -/
theorem of_loadChars {s s' : St vm} {len : Nat} {p : Option Block × Nat}
    (h : Yields (loadChars len) s p s') :
    s'.rpt = s.rpt ∧ (p.1.getD []).length = p.2 ∧ s'.ptr.length + p.2 ≤ s.ptr.length + 1 := by
  unfold loadChars at h
  split at h
  · rename_i hlong
    obtain ⟨bs, s₁, hblock, hpure⟩ := h.of_bind
    obtain ⟨hrpt, hlen, hptr⟩ := of_loadBlock_st hblock
    obtain ⟨rfl, rfl⟩ := hpure.unique (Yields.pure _ _)
    refine ⟨hrpt, ?_, ?_⟩
    · rw [Option.getD_some, List.length_append, hlen, List.length_singleton]
      omega
    · show s'.ptr.length + len ≤ _
      omega
  · rename_i hshort
    obtain ⟨rfl, rfl⟩ := h.unique (Yields.pure _ _)
    refine ⟨rfl, by simp, ?_⟩
    show _ + len ≤ _
    omega

theorem of_loadString {s s' : St vm} {p : Option Block × Nat} (h : Yields loadString s p s') :
    s'.rpt = s.rpt ∧ (p.1.getD []).length = p.2 ∧ s'.ptr.length + p.2 ≤ s.ptr.length := by
  unfold loadString at h
  obtain ⟨b, s₁, hbyte, h⟩ := h.of_bind
  obtain ⟨hrpt₁, hptr₁⟩ := of_loadByte hbyte
  split at h
  · obtain ⟨rfl, rfl⟩ := h.unique (Yields.pure _ _)
    exact ⟨hrpt₁, rfl, by show s'.ptr.length + 0 ≤ _; omega⟩
  · obtain ⟨len, s₂, hlength, h⟩ := h.of_bind
    obtain ⟨hrpt₂, hptr₂⟩ : s₂.rpt = s₁.rpt ∧ s₂.ptr.length ≤ s₁.ptr.length := by
      unfold loadLength at hlength
      split at hlength
      · obtain ⟨n, s₃, hint, hpure⟩ := hlength.of_bind
        obtain ⟨hrpt, hptr⟩ := of_loadInt hint
        obtain ⟨-, rfl⟩ := hpure.unique (Yields.pure _ _)
        exact ⟨hrpt, by omega⟩
      · obtain ⟨-, rfl⟩ := hlength.unique (Yields.pure _ _)
        exact ⟨rfl, le_rfl⟩
    obtain ⟨hrpt₃, hlen, hptr₃⟩ := of_loadChars h
    exact ⟨hrpt₃.trans (hrpt₂.trans hrpt₁), hlen, by omega⟩

/-- A string has its bytes, whatever its type. -/
theorem fills_string (type : Option Block × Nat → UInt8) :
    Fills .strs (loadString : Load vm _) fun p => ⟨.data p.1, p.2, 0, type p⟩ := by
  refine fills_of_held (by decide) fun s p s' h => ?_
  obtain ⟨hrpt, hlen, hptr⟩ := of_loadString h
  exact ⟨hrpt, ⟨hlen, rfl⟩, hptr⟩

theorem fills_code : Fills .codes (loadCode : Load vm _) fun p => ⟨.data (some p.1), p.2, 0, 0⟩ := by
  refine fills_of_held (by decide) fun s p s' h => ?_
  obtain ⟨n, s₁, hint, h⟩ := h.of_bind
  obtain ⟨hrpt₁, hptr₁⟩ := of_loadInt hint
  obtain ⟨bs, s₂, hblock, hpure⟩ := h.of_bind
  obtain ⟨hrpt₂, hlen, hptr₂⟩ := of_loadBlock_st hblock
  obtain ⟨rfl, rfl⟩ := hpure.unique (Yields.pure _ _)
  refine ⟨hrpt₂.trans hrpt₁, ⟨hlen, rfl⟩, ?_⟩
  show s'.ptr.length + n.toNat * 4 % 2 ^ 32 ≤ _
  omega

theorem of_touch {g : Group} {s s' : St vm} {u : Unit} (h : Yields (touch g) s u s') : s' = s := by
  unfold Yields touch at h
  split at h
  · cases h
    rfl
  · cases h

/-- A line table has its bytes, unless its count is below zero. -/
theorem fills_lines (n : CInt) :
    Fills .lineNumbers (loadLines n : Load vm _) fun b => ⟨.data b, n.toNat * 4 % 2 ^ 32, 0, 0⟩ := by
  intro s b s' h
  unfold loadLines at h
  split at h
  · obtain ⟨u, s₁, htouch, hread⟩ := h.of_bind
    obtain ⟨bs, s₂, hblock, hpure⟩ := hread.of_bind
    obtain ⟨hrpt, hlen, hptr⟩ := of_loadBlock_st hblock
    rw [of_touch htouch] at hrpt hptr
    obtain ⟨rfl, rfl⟩ := hpure.unique (Yields.pure _ _)
    refine ⟨by rw [hrpt], fun _ => ⟨⟨hlen, rfl⟩, ?_⟩⟩
    exact hptr.le
  · obtain ⟨rfl, rfl⟩ := h.unique (Yields.pure _ _)
    refine ⟨rfl, fun hnone => ?_⟩
    have hzero : n.toNat * 4 % 2 ^ 32 = 0 := hnone rfl rfl
    refine ⟨⟨hzero.symm, rfl⟩, ?_⟩
    show _ + n.toNat * 4 % 2 ^ 32 ≤ _
    omega

/-! ## The functions of the reader -/

theorem keeps_name : Within Keeps (loadName : Load vm Ref) := by
  have h : Within Keeps ((loadString : Load vm _) >>= fun p =>
      push .strs ⟨.data p.1, p.2, 0, if p.2 ≤ 41 then luaTString else luaTLngstr⟩ >>= pure) :=
    (fills_string _).within fun _ r => Within.pure r
  simp only [bind_pure] at h
  exact h

theorem keeps_setK (id i : Nat) (r : Ref) : Within Keeps (setK id i r : Load vm Unit) :=
  keeps_setSlot _ _ _ _ _

theorem keeps_constant (id i : Nat) : Within Keeps (loadConstant id i : Load vm Bool) := by
  have hstore : ∀ r, Within Keeps (do setK id i r; return true : Load vm Bool) := fun r =>
    (keeps_setK id i r).bind fun _ => Within.pure true
  have hnumber : ∀ s a s', Yields (loadByte : Load vm UInt8) s a s' →
      s'.rpt = s.rpt ∧ s'.ptr.length ≤ s.ptr.length := by
    intro s a s' h
    obtain ⟨hrpt, hptr⟩ := of_loadByte h
    exact ⟨hrpt, by omega⟩
  refine keeps_byte.bind fun t => ?_
  refine Within.ite (Within.pure true) (Within.ite ?_ (Within.ite ?_ (Within.ite ?_ (Within.ite ?_ ?_))))
  · have hmark : luaTBoolean ≠ 0 := by decide
    exact (fills_of_marked (fun _ => hmark) hnumber).within fun _ => hstore
  · have hmark : luaTNumflt ≠ 0 := by decide
    exact (fills_of_marked (fun _ => hmark) fun _ _ _ => of_loadInteger_st).within fun _ => hstore
  · have hmark : (1 : UInt8) ≠ 0 := by decide
    exact (fills_of_marked (fun _ => hmark) fun _ _ _ => of_loadInteger_st).within fun _ => hstore
  · exact (fills_string fun _ => t).within fun _ => hstore
  · exact Within.pure false

theorem keeps_constants (id : Nat) : Within Keeps (loadConstants id : Load vm Unit) := by
  refine keeps_int.bind fun n => (keeps_setFunc id _).bind fun _ => ?_
  refine Within.ite (Within.pure ()) ((keeps_setFunc id _).bind fun _ => ?_)
  exact Within.forWhile (keeps_constant id) _ _

theorem keeps_upvalues (id : Nat) : Within Keeps (loadUpvalues id : Load vm Unit) := by
  refine keeps_int.bind fun n => (keeps_setFunc id _).bind fun _ => ?_
  exact Within.ite (Within.pure ()) ((keeps_block _).bind fun _ => keeps_setFunc id _)

theorem keeps_protos {loadFunction : Nat → Load vm Nat}
    (h : ∀ id, Within Keeps (loadFunction id)) (id : Nat) :
    Within Keeps (loadProtos loadFunction id) := by
  refine keeps_int.bind fun n => (keeps_setFunc id _).bind fun _ => ?_
  refine Within.forUpTo (fun i => ?_) _ _
  exact Within.get.bind fun s => (h _).bind fun r => keeps_setP id i r

theorem keeps_locvar (id i : Nat) : Within Keeps (loadLocvar id i : Load vm Unit) := by
  refine keeps_name.bind fun r => (keeps_setSlot id _ _ i r).bind fun _ => ?_
  refine keeps_int.bind fun x => (keeps_setSlot id _ _ _ x).bind fun _ => ?_
  exact keeps_int.bind fun y => keeps_setSlot id _ _ _ y

theorem keeps_lineinfo (id : Nat) : Within Keeps (loadLineinfo id : Load vm Unit) := by
  refine keeps_int.bind fun n => (keeps_setFunc id _).bind fun _ => ?_
  exact (fills_lines n).within fun _ r => keeps_setFunc id _

theorem keeps_locvars (id : Nat) : Within Keeps (loadLocvars id : Load vm Unit) := by
  refine keeps_int.bind fun n => (keeps_setFunc id _).bind fun _ => ?_
  have hloop : Within Keeps (forUpTo (loadLocvar id) n.toInt.toNat 0 : Load vm Unit) :=
    Within.forUpTo (keeps_locvar id) _ _
  exact Within.ite ((keeps_setFunc id _).bind fun _ => hloop) hloop

theorem keeps_upvalueName (id i : Nat) : Within Keeps (loadUpvalueName id i : Load vm Unit) :=
  keeps_name.bind fun r => keeps_setSlot id _ _ i r

theorem keeps_upvalueNames (id : Nat) : Within Keeps (loadUpvalueNames id : Load vm Unit) := by
  refine keeps_int.bind fun n => (keeps_setFunc id _).bind fun _ => ?_
  have hloop : Within Keeps (forUpTo (loadUpvalueName id) n.toInt.toNat 0 : Load vm Unit) :=
    Within.forUpTo (keeps_upvalueName id) _ _
  exact Within.ite ((keeps_setFunc id _).bind fun _ => hloop) hloop

theorem keeps_prologue (id : Nat) : Within Keeps (loadPrologue id : Load vm Unit) := by
  have hcount : Within Keeps (modify fun s : St vm =>
      { s with rpt.funcCount := s.rpt.funcCount + 1 } : Load vm Unit) :=
    Within.modify fun s => keeps_of_group_eq rfl le_rfl
  refine hcount.bind fun _ => ?_
  refine keeps_name.bind fun r => (keeps_setFunc id _).bind fun _ => ?_
  refine keeps_int.bind fun x => (keeps_setFunc id _).bind fun _ => ?_
  refine keeps_int.bind fun x => (keeps_setFunc id _).bind fun _ => ?_
  refine keeps_byte.bind fun x => (keeps_setFunc id _).bind fun _ => ?_
  refine keeps_byte.bind fun x => (keeps_setFunc id _).bind fun _ => ?_
  refine keeps_byte.bind fun x => (keeps_setFunc id _).bind fun _ => ?_
  exact fills_code.within fun p r => keeps_setFunc id _

/-- **A function** is read like that, by induction over the depth. -/
theorem keeps_function (depth id : Nat) : Within Keeps (loadFunction depth id : Load vm Nat) := by
  induction depth generalizing id with
  | zero => exact Within.throw _
  | succ depth ih =>
    refine (keeps_prologue id).bind fun _ => (keeps_constants id).bind fun _ => ?_
    refine (keeps_upvalues id).bind fun _ => (keeps_protos ih id).bind fun _ => ?_
    refine Within.bind ?_ fun _ => Within.pure id
    exact (keeps_lineinfo id).bind fun _ => (keeps_locvars id).bind fun _ => keeps_upvalueNames id

/-- **A file** is read like that. -/
theorem keeps_reportFile : Within Keeps (luadbDoReportFile : Load vm Int) := by
  refine (keeps_block 4).bind fun _ => Within.ite (Within.pure _) ?_
  refine (keeps_skip 2).bind fun _ => (keeps_block 6).bind fun _ => Within.ite (Within.pure _) ?_
  refine (keeps_skip 5).bind fun _ => keeps_word.bind fun _ => Within.ite (Within.pure _) ?_
  refine Within.bind keeps_word fun _ => Within.ite (Within.pure _) ?_
  exact (keeps_skip 1).bind fun _ => (keeps_function 1024 0).bind fun _ => Within.pure 0

/-! ## Files -/

/-- A file with the report that was read from it.  `luadb_do_report` does not look at what
`luadb_do_report_file` returns. -/
structure AnalysedFile (vm : Vm) where
  bytes : List UInt8
  report : Report vm
  returned : ∃ code ptr, Yields luadbDoReportFile ⟨bytes, Report.zero vm⟩ code ⟨ptr, report⟩

theorem AnalysedFile.spec (f : AnalysedFile vm) (hlines : f.report.LinesHeld) :
    f.report.Kept ∧ f.report.bytesHeld ≤ f.bytes.length := by
  obtain ⟨code, ptr, hread⟩ := f.returned
  obtain ⟨-, hkept, hle⟩ := keeps_reportFile.related hread hlines
  have hzero : (Report.zero vm).Kept := by
    intro g d hd
    cases hd
  have hnone : (Report.zero vm).bytesHeld = 0 := rfl
  refine ⟨hkept hzero, ?_⟩
  dsimp only at hle
  omega

theorem lens_sum_le_bytesHeld (rpt : Report vm) {g : Group} (hg : g ≠ .numbers) :
    (lens (rpt.group g)).sum ≤ rpt.bytesHeld := by
  unfold Report.bytesHeld
  cases g with
  | numbers => exact absurd rfl hg
  | strs | codes | upvalues | lineNumbers => omega

theorem kept_of_files {files : List (AnalysedFile vm)}
    (hlines : ∀ f ∈ files, f.report.LinesHeld) : ∀ rpt ∈ files.map (·.report), rpt.Kept := by
  intro rpt hrpt
  obtain ⟨f, hf, rfl⟩ := List.mem_map.1 hrpt
  exact (f.spec (hlines f hf)).1

theorem length_merged_files (files : List (AnalysedFile vm)) (g : Group) :
    (merged (files.map (·.report)) g).length =
      (files.map fun f => (f.report.group g).length).sum := by
  rw [merged, List.length_flatten, List.map_map, List.map_map]
  rfl

/-- The entries of files that are in memory can be added up. -/
theorem sumsFit_of_files {files : List (AnalysedFile vm)}
    (hlines : ∀ f ∈ files, f.report.LinesHeld)
    (hmem : (files.map (·.bytes.length)).sum < 2 ^ 32) : SumsFit (files.map (·.report)) := by
  intro g hg
  refine lt_of_le_of_lt ?_ hmem
  clear hmem
  induction files with
  | nil => exact le_rfl
  | cons f files ih =>
    obtain ⟨hone, hrest⟩ := List.forall_mem_cons.1 hlines
    have hf : (lens (f.report.group g)).sum ≤ f.bytes.length :=
      (lens_sum_le_bytesHeld f.report hg).trans (f.spec hone).2
    rw [List.map_cons, List.map_cons, merged_cons, lens_append, List.sum_append, List.sum_cons]
    exact Nat.add_le_add hf (ih hrest)

/-- The reports of the files hold what was read, and their totals are exact. -/
theorem done_files {rpts : List (Report vm)} {rs : List (LuacReport vm)}
    (h : List.Forall₂ LuacReport.Done rpts rs) :
    (rs.map fun r g => (r g).data) = rpts.map (·.group) ∧
      ∀ r ∈ rs, ∀ g, g ≠ .numbers → (r g).Exact := by
  induction h with
  | nil => simp
  | cons hdone _ ih =>
    obtain ⟨hdata, hexact⟩ := ih
    refine ⟨?_, List.forall_mem_cons.2 ⟨fun g hg => (hdone g).exact hg, hexact⟩⟩
    rw [List.map_cons, List.map_cons, hdata]
    congr 1
    funext g
    exact (hdone g).data_eq

/-- The totals over all files are made up of those of the files. -/
structure Composes (files : List (DataGroup vm)) (total : DataGroup vm) : Prop where
  count : total.data.length = (files.map (·.data.length)).sum
  totalLen : total.totalLen = (files.map (·.totalLen)).sum
  emtrys : total.emtrys = (files.map (·.emtrys)).sum
  maxLen : total.maxLen = maxOf (files.map (·.maxLen))

theorem composes_of_exact {files : List (DataGroup vm)} {total : DataGroup vm}
    (hfiles : ∀ dg ∈ files, dg.Exact) (htotal : total.Exact)
    (hdata : total.data = (files.map (·.data)).flatten) : Composes files total := by
  have hlens : lens total.data = (files.map fun dg => lens dg.data).flatten := by
    rw [hdata, lens, List.map_flatten, List.map_map]
    rfl
  refine ⟨?_, ?_, ?_, ?_⟩
  · rw [hdata, List.length_flatten, List.map_map]
    rfl
  · rw [htotal.totalLen, hlens, List.sum_flatten, List.map_map]
    exact congrArg List.sum (List.map_congr_left fun dg hdg => (hfiles dg hdg).totalLen.symm)
  · rw [htotal.emtrys, hdata, emptyCount, List.countP_flatten, List.map_map]
    exact congrArg List.sum (List.map_congr_left fun dg hdg => (hfiles dg hdg).emtrys.symm)
  · rw [htotal.maxLen, hlens, maxOf_flatten, List.map_map]
    exact congrArg maxOf (List.map_congr_left fun dg hdg => (hfiles dg hdg).maxLen.symm)

/-- A file of a script with a nested function. -/
def sampleFile : List UInt8 :=
  luacHeader sampleProto ++ (dumpFunction false none sampleProto ++ [])

/-- What is looked at after it has been read: that all line tables have their bytes, and the
sizes of the groups. -/
def sampleFacts (p : Int × St .bit32) : Bool × List Nat :=
  ((p.2.rpt.group .lineNumbers).all fun d => d.block.isSome || d.len = 0,
    [.strs, .codes, .upvalues, .numbers, .lineNumbers].map fun g => (p.2.rpt.group g).length)

theorem analysed_sample : ∃ f : AnalysedFile .bit32, f.bytes = sampleFile ∧
    f.report.LinesHeld ∧ ∀ g, (f.report.group g).length ≤ 5 := by
  obtain ⟨code, ⟨ptr, rpt⟩, hrun, hfacts⟩ := exists_yields
    (m := (luadbDoReportFile : Load .bit32 Int)) (s := ⟨sampleFile, Report.zero .bit32⟩)
    (f := sampleFacts) (b := (true, [5, 2, 0, 2, 2])) (by decide +kernel)
  obtain ⟨hlines, hsizes⟩ := Prod.mk.inj hfacts
  have hheld : rpt.LinesHeld := by
    intro d hd hnone
    have hok := List.all_eq_true.1 hlines d hd
    rw [hnone] at hok
    simpa using hok
  refine ⟨⟨sampleFile, rpt, ⟨code, ptr, hrun⟩⟩, rfl, hheld, ?_⟩
  simp only [List.map_cons, List.map_nil, List.cons.injEq, and_true] at hsizes
  obtain ⟨h₁, h₂, h₃, h₄, h₅⟩ := hsizes
  intro g
  show (rpt.group g).length ≤ 5
  cases g <;> omega

/-- A function without code, constants and upvalues, with a count of lines and what is there
of them. -/
def lineFunction (nested : List (List UInt8)) (count : CInt) (lines : List CInt) : List UInt8 :=
  dumpString none ++ dumpInt 0 ++ dumpInt 0 ++ [0, 0, 2] ++ dumpSize 0 ++ dumpSize 0 ++ dumpSize 0 ++
    dumpSize nested.length ++ nested.flatten ++ dumpInt count ++ lines.flatMap dumpInt ++
    dumpSize 0 ++ dumpSize 0

/-- A file in which the main function has the count `-1`, and the function in it another. -/
def lineFile (count : CInt) (lines : List CInt) : List UInt8 :=
  luacHeader sampleProto ++ lineFunction [lineFunction [] count lines] (-1) []

/-- What is looked at after a file has been read: the returned value, the lengths of the line
tables, and the totals, with the length of the line tables over all files. -/
def lineFacts (p : Int × St .bit32) : Int × List Nat × Except Stop Nat :=
  (p.1, lens (p.2.rpt.group .lineNumbers),
    (doTotals [p.2.rpt]).map fun r => (r.2 .lineNumbers).totalLen)

end LuatosPc.Luac
