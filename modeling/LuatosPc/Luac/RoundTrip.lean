import LuatosPc.Luac.Reading

/-!
# A chunk is read back as the tree it was written from

* `Describes` — a function record holds everything but the nested functions of a
  prototype; `Represents` — the graph below a record is a tree of prototypes,
  laid out in preorder.
* `Proto.entries` — how many entries a tree takes in each data group.
* `loads_head`, `loads_protoLoop`, `loads_function` — the reader on the parts
  before the nested functions, on the nested functions, and on a whole function;
  the last by induction over the tree.
* `report_round_trip` — the report of a dumped tree.
-/

namespace LuatosPc.Luac

open LuatosPc.Bytes

variable {vm : Vm}

/-! ## Records and trees -/

/-- The record `f` of the report is function `b`, its nested functions apart, as
far as it was dumped. -/
structure Report.Describes (rpt : Report vm) (f : LufFunc) (strip : Bool) (psource : Option Str)
    (b : Body vm) : Prop where
  source : rpt.Holds f.source (some (nameData (b.dumpedSource strip psource)))
  linedefined : f.linedefined = b.linedefined
  lastlinedefined : f.lastlinedefined = b.lastlinedefined
  numparams : f.numparams = b.numparams
  isVararg : f.isVararg = b.isVararg
  maxstacksize : f.maxstacksize = b.maxstacksize
  sizecode : f.sizecode = b.code.length
  code : rpt.Holds f.code (some (codeData b.code))
  sizek : f.sizek = b.k.length
  k : List.Forall₂ rpt.Holds f.k (b.k.map Constant.data)
  sizeupvalues : f.sizeupvalues = b.upvalues.length
  upvalues : f.upvalues = upvaluePairs b.upvalues
  sizelineinfo : f.sizelineinfo = (b.dumpedLineinfo strip).length
  lineinfo : rpt.Holds f.lineinfo (some (lineData (b.dumpedLineinfo strip)))
  sizelocvars : f.sizelocvars = (b.dumpedLocvars strip).length
  locvars2 : List.Forall₂ rpt.Holds f.locvars2
    ((b.dumpedLocvars strip).map fun v => some (nameData v.varname))
  locvars : f.locvars = pcRanges (b.dumpedLocvars strip)
  sizeupvalues2 : f.sizeupvalues2 = (b.dumpedNames strip).length
  upvalues2 : List.Forall₂ rpt.Holds f.upvalues2
    ((b.dumpedNames strip).map fun s => some (nameData s))

/-- The position of nested function `j` of the function at position `id`, when
functions are laid out in preorder. -/
def childId (id : Nat) (p : List (Proto vm)) (j : Nat) : Nat :=
  id + 1 + Proto.sizeAll (p.take j)

/-- The graph below position `id` of the table of functions is the dumped tree,
laid out in preorder. -/
inductive Represents (rpt : Report vm) (strip : Bool) : Option Str → Nat → Proto vm → Prop
  | mk {psource : Option Str} {id : Nat} {b : Body vm} {p : List (Proto vm)} :
      rpt.Describes (rpt.lufFuncs id) strip psource b →
      (rpt.lufFuncs id).sizep = p.length →
      (∀ j, j < p.length → (rpt.lufFuncs id).p j = some (childId id p j)) →
      (∀ (j : Nat) (h : j < p.length), Represents rpt strip b.source (childId id p j) p[j]) →
      Represents rpt strip psource id (.mk b p)

theorem Report.Describes.mono {rpt rpt' : Report vm} {f : LufFunc} {strip : Bool}
    {psource : Option Str} {b : Body vm} {n : Group → Nat} (h : rpt.Describes f strip psource b)
    (hg : rpt.Grows rpt' n) : rpt'.Describes f strip psource b :=
  { h with
    source := h.source.mono hg
    code := h.code.mono hg
    k := Holds.mono_all h.k hg
    lineinfo := h.lineinfo.mono hg
    locvars2 := Holds.mono_all h.locvars2 hg
    upvalues2 := Holds.mono_all h.upvalues2 hg }

theorem Proto.sizeAll_take_add_le (p : List (Proto vm)) {j : Nat} (h : j < p.length) :
    sizeAll (p.take j) + p[j].size ≤ sizeAll p := by
  conv_rhs => rw [← List.take_append_drop j p, List.drop_eq_getElem_cons h]
  rw [sizeAll_append, sizeAll]
  omega

/-- A tree stays where it is when entries are added and records outside it are
changed. -/
theorem Represents.mono {rpt rpt' : Report vm} {strip : Bool} {psource : Option Str} {id : Nat}
    {f : Proto vm} {n : Group → Nat} (h : Represents rpt strip psource id f)
    (hg : rpt.Grows rpt' n)
    (hsame : ∀ j, id ≤ j → j < id + f.size → rpt'.lufFuncs j = rpt.lufFuncs j) :
    Represents rpt' strip psource id f := by
  induction h with
  | @mk psource id b p hbody hsize hp hchildren ih =>
    rw [Proto.size] at hsame
    have hid : rpt'.lufFuncs id = rpt.lufFuncs id := hsame id (Nat.le_refl id) (by omega)
    refine .mk ?_ ?_ ?_ ?_
    · rw [hid]
      exact hbody.mono hg
    · rw [hid]
      exact hsize
    · rw [hid]
      exact hp
    · intro j hj
      refine ih j hj ?_
      intro i hlo hhi
      have hle := Proto.sizeAll_take_add_le p hj
      unfold childId at hlo hhi
      exact hsame i (by omega) (by omega)

/-! ## Entries -/

namespace Body

variable (b : Body vm)

/-- The entries for what stands before the nested functions: the source name, the
code, and the constants. -/
def headEntries : Group → Nat :=
  inGroup .strs 1 + inGroup .codes 1 + (b.k.map Constant.entries).sum

/-- The entries for the debug information: the line table, the names of the local
variables and those of the upvalues. -/
def debugEntries (strip : Bool) : Group → Nat :=
  inGroup .lineNumbers 1 + inGroup .strs (b.dumpedLocvars strip).length +
    inGroup .strs (b.dumpedNames strip).length

end Body

namespace Proto

mutual

/-- The entries that a tree takes in each data group. -/
def entries (strip : Bool) : Proto vm → Group → Nat
  | mk b p => b.headEntries + entriesAll strip p + b.debugEntries strip

/-- The entries that several trees take. -/
def entriesAll (strip : Bool) : List (Proto vm) → Group → Nat
  | [] => 0
  | f :: fs => f.entries strip + entriesAll strip fs

end

end Proto

/-! ## Before the nested functions -/

/-- The bytes before the nested functions. -/
def dumpHead (b : Body vm) (source : Option Str) (children : Nat) : List UInt8 :=
  dumpPrologue b source ++ (dumpConstants b.k ++ (dumpUpvalues b.upvalues ++ dumpSize children))

theorem dumpFunction_eq (strip : Bool) (psource : Option Str) (b : Body vm) (p : List (Proto vm)) :
    dumpFunction strip psource (.mk b p) =
      dumpHead b (b.dumpedSource strip psource) p.length ++
        (dumpProtos strip b.source p ++ b.dumpDebug strip) := by
  simp only [dumpFunction, dumpHead, dumpPrologue, List.append_assoc]

/-- The part of `LoadFunction` before the loop over the nested functions. -/
def loadHead (id : Nat) : Load vm CInt := do
  loadPrologue id
  loadConstants id
  loadUpvalues id
  let n ← loadInt
  setFunc id fun f => { f with sizep := n.toNat }
  return n

theorem loadFunction_succ (depth id : Nat) : (loadFunction (depth + 1) id : Load vm Nat) = do
    let n ← loadHead id
    forUpTo (fun i => do
      let s ← get
      setP id i (← loadFunction depth s.rpt.funcCount)) n.toInt.toNat 0
    loadDebug id
    return id := by
  simp only [loadFunction, loadHead, loadProtos, bind_assoc, pure_bind]

/-- The record before the loop over the nested functions. -/
def LufFunc.withHead (f : LufFunc) (b : Body vm) (source code : Ref) (k : List (Option Ref))
    (children : Nat) : LufFunc :=
  { f.withPrologue b source code with
    sizek := b.k.length
    k := k
    sizeupvalues := b.upvalues.length
    upvalues := upvaluePairs b.upvalues
    sizep := children }

/-- The part before the nested functions is read back into a record of zeros. -/
theorem loads_head (rpt : Report vm) {id : Nat} (hid : id < 1024) (hzero : rpt.lufFuncs id = .zero)
    (b : Body vm) (source : Option Str) {children : Nat} (hchildren : children < 2 ^ 32)
    (hlen : (dumpHead b source children).length < 2 ^ 32) (hroom : rpt.Room b.headEntries)
    (rest : List UInt8) :
    ∃ rpt' rs rc rk, Yields (loadHead id) ⟨dumpHead b source children ++ rest, rpt⟩
        (BitVec.ofNat 32 children) ⟨rest, rpt'⟩ ∧
      Updates id { rpt with funcCount := rpt.funcCount + 1 } rpt'
        (LufFunc.zero.withHead b rs rc rk children) b.headEntries ∧
      rpt'.Holds (some rs) (some (nameData source)) ∧
      rpt'.Holds (some rc) (some (codeData b.code)) ∧
      List.Forall₂ rpt'.Holds rk (b.k.map Constant.data) := by
  simp only [dumpHead, dumpConstants, dumpUpvalues, List.length_append] at hlen
  have hk : (b.k.flatMap dumpConstant).length < 2 ^ 32 := by omega
  have hus : (upvaluePairs b.upvalues).length < 2 ^ 32 := by omega
  obtain ⟨rpt₁, rs, rc, hload₁, h₁, hrs, hrc⟩ := loads_prologue rpt hid b source (by omega)
    hroom.left (dumpConstants b.k ++ (dumpUpvalues b.upvalues ++ (dumpSize children ++ rest)))
  rw [hzero] at h₁
  obtain ⟨rpt₂, rk, hload₂, h₂, hg₂, hrk⟩ := h₁.after_constants hid b.sizek_lt hk hroom rfl
    (dumpUpvalues b.upvalues ++ (dumpSize children ++ rest))
  obtain ⟨rpt₃, hload₃, h₃, hg₃⟩ := h₂.after_upvalues hid hus rfl (dumpSize children ++ rest)
  obtain ⟨rpt₄, hset, h₄, hg₄⟩ := h₃.after_setFunc hid (fun f => { f with sizep := children }) rest
  have hg : rpt₂.Grows rpt₄ 0 := hg₃.zero_trans hg₄
  refine ⟨rpt₄, rs, rc, rk, ?_, h₄, (hrs.mono hg₂).mono hg, (hrc.mono hg₂).mono hg,
    Report.Holds.mono_all hrk hg⟩
  have hbytes : dumpHead b source children ++ rest = dumpPrologue b source ++ (dumpConstants b.k ++
      (dumpUpvalues b.upvalues ++ (dumpSize children ++ rest))) := by
    simp only [dumpHead, List.append_assoc]
  rw [hbytes]
  refine hload₁.bind (hload₂.bind (hload₃.bind ((loads_int rpt₃ rest _).bind ?_)))
  rw [size_toNat hchildren]
  exact hset.bind (Yields.pure _ _)

/-! ## Nested functions -/

/-- The records that are not in use are zeros. -/
def Report.Fresh (rpt : Report vm) : Prop :=
  ∀ j, rpt.funcCount ≤ j → rpt.lufFuncs j = .zero

/-- The effect of reading trees of `size` functions while function `id` is being
read: entries and records have been added, and the list of nested functions of
`id` may have grown. -/
structure Nests (id : Nat) (rpt rpt' : Report vm) (size : Nat) (n : Group → Nat) : Prop where
  grows : rpt.Grows rpt' n
  count : rpt'.funcCount = rpt.funcCount + size
  func : ∃ p, rpt'.lufFuncs id = { rpt.lufFuncs id with p := p }
  frame : ∀ j, j < rpt.funcCount → j ≠ id → rpt'.lufFuncs j = rpt.lufFuncs j
  fresh : rpt'.Fresh

theorem Nests.refl (id : Nat) {rpt : Report vm} (h : rpt.Fresh) : Nests id rpt rpt 0 0 :=
  ⟨.refl rpt, rfl, ⟨_, rfl⟩, fun _ _ _ => rfl, h⟩

theorem Nests.trans {id : Nat} {rpt rpt₁ rpt₂ : Report vm} {size size' : Nat} {n m : Group → Nat}
    (h₁ : Nests id rpt rpt₁ size n) (h₂ : Nests id rpt₁ rpt₂ size' m) :
    Nests id rpt rpt₂ (size + size') (n + m) where
  grows := h₁.grows.trans h₂.grows
  count := by rw [h₂.count, h₁.count, Nat.add_assoc]
  func := by
    obtain ⟨p₁, hp₁⟩ := h₁.func
    obtain ⟨p₂, hp₂⟩ := h₂.func
    exact ⟨p₂, by rw [hp₂, hp₁]⟩
  frame := fun j hj hid => (h₂.frame j (by rw [h₁.count]; omega) hid).trans (h₁.frame j hj hid)
  fresh := h₂.fresh

/-- The reader of a nested function works on tree `f`: it is read back into the
next free records, and nothing else changes but for new entries. -/
def ReadsBack (strip : Bool) (f : Proto vm) : Prop :=
  ∀ (psource : Option Str) (depth : Nat) (rpt : Report vm) (rest : List UInt8),
    f.size ≤ depth → rpt.funcCount + f.size ≤ 1024 → rpt.Room (f.entries strip) →
    (dumpFunction strip psource f).length < 2 ^ 32 → rpt.Fresh →
    ∃ rpt', Yields (loadFunction depth rpt.funcCount) ⟨dumpFunction strip psource f ++ rest, rpt⟩
        rpt.funcCount ⟨rest, rpt'⟩ ∧
      rpt.Grows rpt' (f.entries strip) ∧ rpt'.funcCount = rpt.funcCount + f.size ∧
      (∀ j, j < rpt.funcCount → rpt'.lufFuncs j = rpt.lufFuncs j) ∧ rpt'.Fresh ∧
      Represents rpt' strip psource rpt.funcCount f

/-- `f->p[i] = r`. -/
theorem loads_setP (rpt : Report vm) (bs : List UInt8) {id i : Nat} (r : Nat) (hid : id < 1024)
    (hi : i < 1024) :
    ∃ rpt', Yields (setP id i r) ⟨bs, rpt⟩ () ⟨bs, rpt'⟩ ∧
      Updates id rpt rpt'
        { rpt.lufFuncs id with p := Function.update (rpt.lufFuncs id).p i (some r) } 0 := by
  obtain ⟨rpt', hset, hupd, -⟩ := (Updates.refl id rpt).after_setFunc hid
    (fun f => { f with p := Function.update f.p i (some r) }) bs
  exact ⟨rpt', (if_pos hi).trans hset, hupd⟩

/-- One round of the loop over the nested functions. -/
theorem loads_proto {strip : Bool} {f : Proto vm} (hf : ReadsBack strip f) (psource : Option Str)
    {depth : Nat} {rpt : Report vm} {id i : Nat} (hdepth : f.size ≤ depth)
    (hfuncs : rpt.funcCount + f.size ≤ 1024) (hroom : rpt.Room (f.entries strip))
    (hlen : (dumpFunction strip psource f).length < 2 ^ 32) (hfresh : rpt.Fresh)
    (hid : id < rpt.funcCount) (hi : i < 1024) (rest : List UInt8) :
    ∃ rpt', Yields (do let s ← get; setP id i (← loadFunction depth s.rpt.funcCount))
        ⟨dumpFunction strip psource f ++ rest, rpt⟩ () ⟨rest, rpt'⟩ ∧
      Nests id rpt rpt' f.size (f.entries strip) ∧
      (rpt'.lufFuncs id).p = Function.update (rpt.lufFuncs id).p i (some rpt.funcCount) ∧
      Represents rpt' strip psource rpt.funcCount f := by
  obtain ⟨rpt₁, hload, hgrows, hcount, hframe, hfresh₁, hrep⟩ :=
    hf psource depth rpt rest hdepth hfuncs hroom hlen hfresh
  obtain ⟨rpt₂, hset, hupd⟩ := loads_setP rpt₁ rest rpt.funcCount (show id < 1024 by omega) hi
  have hsame := hframe id hid
  have hfunc := hupd.func
  rw [hsame] at hfunc
  refine ⟨rpt₂, (Yields.get _).bind (hload.bind hset), ?_, by rw [hfunc], ?_⟩
  · refine ⟨hgrows.trans hupd.grows, hupd.count.trans hcount, ⟨_, hfunc⟩, ?_, ?_⟩
    · intro j hj hne
      exact (hupd.frame j hne).trans (hframe j hj)
    · intro j hj
      rw [hupd.count] at hj
      rw [hupd.frame j (by omega)]
      exact hfresh₁ j hj
  · refine hrep.mono hupd.grows ?_
    intro j hlo _
    exact hupd.frame j (by omega)

/-- The loop over the nested functions reads them back into consecutive trees and
links them to the enclosing function. -/
theorem loads_protoLoop {strip : Bool} {fs : List (Proto vm)} (hfs : ∀ f ∈ fs, ReadsBack strip f)
    (psource : Option Str) {depth : Nat} {rpt : Report vm} {id i : Nat}
    (hdepth : Proto.sizeAll fs ≤ depth) (hfuncs : rpt.funcCount + Proto.sizeAll fs ≤ 1024)
    (hroom : rpt.Room (Proto.entriesAll strip fs))
    (hlen : (dumpProtos strip psource fs).length < 2 ^ 32) (hfresh : rpt.Fresh)
    (hid : id < rpt.funcCount) (hi : i + fs.length ≤ 1024) (rest : List UInt8) :
    ∃ rpt', Yields (forUpTo (fun i => do
          let s ← get
          setP id i (← loadFunction depth s.rpt.funcCount)) fs.length i)
        ⟨dumpProtos strip psource fs ++ rest, rpt⟩ () ⟨rest, rpt'⟩ ∧
      Nests id rpt rpt' (Proto.sizeAll fs) (Proto.entriesAll strip fs) ∧
      (∀ j < i, (rpt'.lufFuncs id).p j = (rpt.lufFuncs id).p j) ∧
      ∀ (j : Nat) (h : j < fs.length),
        (rpt'.lufFuncs id).p (i + j) = some (rpt.funcCount + Proto.sizeAll (fs.take j)) ∧
        Represents rpt' strip psource (rpt.funcCount + Proto.sizeAll (fs.take j)) fs[j] := by
  induction fs generalizing rpt i with
  | nil =>
    refine ⟨rpt, Yields.forUpTo_zero _ _ _, Nests.refl id hfresh, fun _ _ => rfl, ?_⟩
    intro j hj
    exact absurd hj (Nat.not_lt_zero j)
  | cons f fs ih =>
    simp only [Proto.sizeAll, Proto.entriesAll, dumpProtos, List.length_append,
      List.length_cons] at hdepth hfuncs hroom hlen hi
    have hone : f.size ≤ depth := by omega
    obtain ⟨rpt₁, hone, hnest₁, hp₁, hrep⟩ := loads_proto (hfs f List.mem_cons_self) psource hone
      (by omega) hroom.left (by omega) hfresh hid (show i < 1024 by omega)
      (dumpProtos strip psource fs ++ rest)
    have hcount := hnest₁.count
    obtain ⟨rpt₂, hloop, hnest₂, hbelow, hrest⟩ :=
      ih (fun g hg => hfs g (List.mem_cons_of_mem f hg)) (by omega) (by omega)
        (hroom.right hnest₁.grows) (by omega) hnest₁.fresh (by omega) (show i + 1 + _ ≤ _ by omega)
    refine ⟨rpt₂, ?_, hnest₁.trans hnest₂, ?_, ?_⟩
    · rw [dumpProtos, List.append_assoc]
      exact hone.forUpTo_succ hloop
    · intro j hj
      rw [hbelow j (by omega), hp₁, Function.update_of_ne (by omega)]
    · intro j hj
      cases j with
      | zero =>
        refine ⟨?_, ?_⟩
        · rw [Nat.add_zero, hbelow i (by omega), hp₁, Function.update_self]
          rfl
        · refine hrep.mono hnest₂.grows ?_
          intro j hlo hhi
          exact hnest₂.frame j (by omega) (by omega)
      | succ j =>
        obtain ⟨hpj, hrepj⟩ := hrest j (Nat.lt_of_succ_lt_succ hj)
        have hpos : rpt₁.funcCount + Proto.sizeAll (fs.take j) =
            rpt.funcCount + Proto.sizeAll ((f :: fs).take (j + 1)) := by
          rw [hcount, List.take_succ_cons, Proto.sizeAll, Nat.add_assoc]
        rw [hpos] at hpj hrepj
        exact ⟨by rw [← hpj, Nat.add_assoc, Nat.add_comm 1], hrepj⟩

/-! ## Whole functions -/

theorem Proto.length_le_sizeAll (fs : List (Proto vm)) : fs.length ≤ sizeAll fs := by
  induction fs with
  | nil => exact Nat.le_refl 0
  | cons f fs ih =>
    cases f with
    | mk b p =>
      rw [List.length_cons, sizeAll, size]
      omega

/-- The record of a function that has been read completely. -/
def LufFunc.complete (b : Body vm) (strip : Bool) (source code lines : Ref)
    (k vars names : List (Option Ref)) (children : Nat) (p : Nat → Option Nat) : LufFunc :=
  { LufFunc.zero.withHead b source code k children with
    p := p
    sizelineinfo := (b.dumpedLineinfo strip).length
    lineinfo := some lines
    sizelocvars := (b.dumpedLocvars strip).length
    locvars2 := vars
    locvars := pcRanges (b.dumpedLocvars strip)
    sizeupvalues2 := (b.dumpedNames strip).length
    upvalues2 := names }

theorem describes_complete {rpt : Report vm} {b : Body vm} {strip : Bool} {psource : Option Str}
    {source code lines : Ref} {k vars names : List (Option Ref)} (children : Nat)
    (p : Nat → Option Nat)
    (hsource : rpt.Holds (some source) (some (nameData (b.dumpedSource strip psource))))
    (hcode : rpt.Holds (some code) (some (codeData b.code)))
    (hk : List.Forall₂ rpt.Holds k (b.k.map Constant.data))
    (hlines : rpt.Holds (some lines) (some (lineData (b.dumpedLineinfo strip))))
    (hvars : List.Forall₂ rpt.Holds vars
      ((b.dumpedLocvars strip).map fun v => some (nameData v.varname)))
    (hnames : List.Forall₂ rpt.Holds names
      ((b.dumpedNames strip).map fun s => some (nameData s))) :
    rpt.Describes (.complete b strip source code lines k vars names children p) strip psource b where
  source := hsource
  linedefined := rfl
  lastlinedefined := rfl
  numparams := rfl
  isVararg := rfl
  maxstacksize := rfl
  sizecode := rfl
  code := hcode
  sizek := rfl
  k := hk
  sizeupvalues := rfl
  upvalues := rfl
  sizelineinfo := rfl
  lineinfo := hlines
  sizelocvars := rfl
  locvars2 := hvars
  locvars := rfl
  sizeupvalues2 := rfl
  upvalues2 := hnames

/-- **Every tree is read back.**  By induction over the tree, for any report with
room for it and any bytes behind it. -/
theorem loads_function (strip : Bool) (f : Proto vm) : ReadsBack strip f := by
  induction f using Proto.induct with
  | h b p ih =>
    intro psource depth rpt rest hdepth hfuncs hroom hlen hfresh
    rw [Proto.size] at hdepth hfuncs
    rw [Proto.entries] at hroom
    rw [dumpFunction_eq, List.length_append, List.length_append] at hlen
    obtain ⟨depth, rfl⟩ : ∃ d, depth = d + 1 := ⟨depth - 1, by omega⟩
    have hchildren := Proto.length_le_sizeAll p
    have hid : rpt.funcCount < 1024 := by omega
    have hsizep : p.length < 2 ^ 32 := by omega
    obtain ⟨rpt₁, rs, rc, rk, hhead, h₁, hrs, hrc, hrk⟩ := loads_head rpt hid
      (hfresh _ (Nat.le_refl _)) b (b.dumpedSource strip psource) hsizep (by omega) hroom.left.left
      (dumpProtos strip b.source p ++ (b.dumpDebug strip ++ rest))
    have hcount₁ : rpt₁.funcCount = rpt.funcCount + 1 := h₁.count
    have hfresh₁ : rpt₁.Fresh := by
      intro j hj
      rw [h₁.frame j (by omega)]
      exact hfresh j (by omega)
    have hroom₁ : rpt₁.Room (Proto.entriesAll strip p + b.debugEntries strip) := by
      rw [add_assoc] at hroom
      exact hroom.right h₁.grows
    have hnested : Proto.sizeAll p ≤ depth := by omega
    obtain ⟨rpt₂, hloop, hnest, -, hkids⟩ := loads_protoLoop ih b.source hnested (by omega)
      hroom₁.left (by omega) hfresh₁ (show rpt.funcCount < rpt₁.funcCount by omega)
      (show 0 + p.length ≤ 1024 by omega) (b.dumpDebug strip ++ rest)
    obtain ⟨ps, hps⟩ := hnest.func
    rw [h₁.func] at hps
    have hroom₂ : rpt₂.Room (0 + inGroup .lineNumbers 1 +
        inGroup .strs (b.dumpedLocvars strip).length +
        inGroup .strs (b.dumpedNames strip).length) := by
      rw [zero_add]
      exact hroom₁.right hnest.grows
    have h₂ := Updates.refl rpt.funcCount rpt₂
    rw [hps] at h₂
    obtain ⟨rpt₃, rl, rv, rn, hdebug, h₃, hg₃, hrl, hrv, hrn⟩ := h₂.after_debug hid
      (show (b.dumpDebug strip).length < 2 ^ 32 by omega) hroom₂ rfl rfl rfl rest
    have hg₁₃ := hnest.grows.trans hg₃
    have hcount₃ : rpt₃.funcCount = rpt.funcCount + (1 + Proto.sizeAll p) := by
      rw [h₃.count, hnest.count, hcount₁]
      omega
    refine ⟨rpt₃, ?_, ?_, hcount₃, ?_, ?_, ?_⟩
    · rw [dumpFunction_eq, List.append_assoc, List.append_assoc, loadFunction_succ]
      refine hhead.bind ?_
      rw [size_toInt (by omega), Int.toNat_natCast]
      exact hloop.bind (hdebug.bind (Yields.pure _ _))
    · have hg₁ : rpt.Grows rpt₁ b.headEntries := h₁.grows
      rw [Proto.entries, add_assoc]
      exact hg₁.trans hg₁₃
    · intro j hj
      rw [h₃.frame j (by omega), hnest.frame j (by omega) (by omega), h₁.frame j (by omega)]
    · intro j hj
      rw [h₃.frame j (by omega)]
      exact hnest.fresh j (by rw [hnest.count]; omega)
    · have hfunc : rpt₃.lufFuncs rpt.funcCount =
          .complete b strip rs rc rl rk rv rn p.length ps := h₃.func
      have hp : (rpt₂.lufFuncs rpt.funcCount).p = ps := by rw [hps]
      refine .mk ?_ (by rw [hfunc]; rfl) ?_ ?_
      · rw [hfunc]
        exact describes_complete p.length ps (hrs.mono hg₁₃) (hrc.mono hg₁₃)
          (Report.Holds.mono_all hrk hg₁₃) hrl hrv hrn
      · intro j hj
        have hkid := (hkids j hj).1
        rw [Nat.zero_add, hcount₁, hp] at hkid
        rw [hfunc]
        exact hkid
      · intro j hj
        have hkid := (hkids j hj).2
        rw [hcount₁] at hkid
        refine hkid.mono hg₃ ?_
        intro i hlo _
        exact h₃.frame i (by omega)

/-! ## Chunks -/

theorem loads_skip (rpt : Report vm) (rest : List UInt8) {n : Nat} {bs : List UInt8}
    (h : bs.length = n) : Yields (skip n) ⟨bs ++ rest, rpt⟩ () ⟨rest, rpt⟩ := by
  show Except.ok ((), (⟨(bs ++ rest).drop n, rpt⟩ : St vm)) = _
  rw [List.drop_left' h]

/-- The header of a chunk is accepted, and the main function read behind it. -/
theorem luadbDoReportFile_header (f : Proto vm) (rpt : Report vm) (bs : List UInt8) :
    luadbDoReportFile ⟨luacHeader f ++ bs, rpt⟩ =
      (do let _ ← loadFunction 1024 0; return 0 : Load vm Int) ⟨bs, rpt⟩ := by
  have hsignature : luaSignature.length = 4 := rfl
  have hversion : ([0x53, 0x00] : List UInt8).length = 2 := rfl
  have hdata : luacData.length = 6 := rfl
  have hsizes : ([0x04, 0x04, 0x04, UInt8.ofNat vm.size, UInt8.ofNat vm.size] :
    List UInt8).length = 5 := rfl
  unfold luadbDoReportFile luacHeader
  simp only [List.append_assoc]
  rw [(loads_block rpt _ hsignature).bind_eq, if_neg (not_not.2 rfl),
    (loads_skip rpt _ hversion).bind_eq, (loads_block rpt _ hdata).bind_eq,
    if_neg (not_not.2 rfl), (loads_skip rpt _ hsizes).bind_eq, (loads_word rpt _ _).bind_eq,
    if_neg (not_not.2 rfl)]
  refine (Yields.bind_eq (loads_word rpt _ _) _).trans ?_
  rw [if_neg (not_not.2 rfl), (loads_skip rpt bs List.length_singleton).bind_eq]

theorem loads_header (f : Proto vm) {rpt rpt' : Report vm} {bs rest : List UInt8} {id : Nat}
    (hload : Yields (loadFunction 1024 0) ⟨bs, rpt⟩ id ⟨rest, rpt'⟩) :
    Yields luadbDoReportFile ⟨luacHeader f ++ bs, rpt⟩ 0 ⟨rest, rpt'⟩ :=
  (luadbDoReportFile_header f rpt bs).trans (hload.bind (Yields.pure 0 _))

/-- A chunk is read to its end. -/
theorem loads_chunk (strip : Bool) (f : Proto vm) (rest : List UInt8) (hfuncs : f.size ≤ 1024)
    (hgroups : ∀ g, f.entries strip g ≤ 32 * 1024)
    (hmem : (dumpFunction strip none f).length < 2 ^ 32) :
    ∃ rpt, Yields luadbDoReportFile
        ⟨luacHeader f ++ (dumpFunction strip none f ++ rest), Report.zero vm⟩ 0 ⟨rest, rpt⟩ ∧
      (Report.zero vm).Grows rpt (f.entries strip) ∧ rpt.funcCount = 0 + f.size ∧
      Represents rpt strip none 0 f := by
  have hroom : (Report.zero vm).Room (f.entries strip) := by
    intro g
    show 0 + _ ≤ _
    have := hgroups g
    omega
  have hcount : (Report.zero vm).funcCount + f.size ≤ 1024 := by
    show 0 + f.size ≤ 1024
    omega
  obtain ⟨rpt, hload, hgrows, hfinal, -, -, hrep⟩ := loads_function strip f none 1024
    (Report.zero vm) rest hfuncs hcount hroom hmem (fun _ _ => rfl)
  exact ⟨rpt, loads_header f hload, hgrows, hfinal, hrep⟩

/-- **Parsing undoes dumping.**  The report of a chunk, with or without debug
information, is the tree it was dumped from: `luadb_do_report_file` returns 0 with
its cursor behind the chunk, and the functions stand in the table in preorder. -/
theorem report_round_trip (strip : Bool) (f : Proto vm) (rest : List UInt8)
    (hfuncs : f.size ≤ 1024) (hgroups : ∀ g, f.entries strip g ≤ 32 * 1024)
    (hmem : (luacHeader f ++ dumpFunction strip none f).length < 2 ^ 32) :
    ∃ rpt, Yields luadbDoReportFile
        ⟨luacHeader f ++ (dumpFunction strip none f ++ rest), Report.zero vm⟩ 0 ⟨rest, rpt⟩ ∧
      rpt.funcCount = f.size ∧ Represents rpt strip none 0 f ∧
      ∀ g, (rpt.group g).length = f.entries strip g := by
  rw [List.length_append] at hmem
  obtain ⟨rpt, hload, hgrows, hcount, hrep⟩ := loads_chunk strip f rest hfuncs hgroups (by omega)
  refine ⟨rpt, hload, ?_, hrep, ?_⟩
  · rw [hcount, Nat.zero_add]
  · intro g
    rw [hgrows.length]
    exact Nat.zero_add _

/-- A script with one local variable and one nested function without debug
information of its own. -/
def sampleProto : Proto .bit32 :=
  .mk
    { source := some [0x40, 0x61]
      linedefined := 0
      lastlinedefined := 0
      numparams := 0
      isVararg := 1
      maxstacksize := 2
      code := [0x0000002C#32, 0x00800026#32]
      k := [.nil, .boolean true, .integer 7, .shortString [0x68, 0x69]]
      upvalues := [⟨some [0x5F], 1, 0⟩]
      lineinfo := [1, 3]
      locvars := [⟨some [0x66], 1, 2⟩]
      sizek_lt := by decide }
    [.mk
      { source := some [0x40, 0x61]
        linedefined := 1
        lastlinedefined := 3
        numparams := 1
        isVararg := 0
        maxstacksize := 2
        code := [0x00800026#32]
        k := []
        upvalues := []
        lineinfo := []
        locvars := []
        sizek_lt := by decide }
      []]

set_option maxRecDepth 4000 in
theorem report_round_trip_sample : ∃ rpt, Yields luadbDoReportFile
      ⟨luacHeader sampleProto ++ (dumpFunction false none sampleProto ++ []), Report.zero .bit32⟩ 0
      ⟨[], rpt⟩ ∧
    rpt.funcCount = 2 ∧ Represents rpt false none 0 sampleProto ∧
    ∀ g, (rpt.group g).length = sampleProto.entries false g :=
  report_round_trip false sampleProto [] (by decide) (fun g => by cases g <;> decide) (by decide)

end LuatosPc.Luac
