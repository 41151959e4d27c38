import LuatosPc.Luac.Tables

/-!
# Which files the report accepts

`luadb_do_report_file` is handed a pointer and no length.  It compares four parts
of the header and skips the others, and from there on it believes every length it
meets; the functions under it have no way to report an error.  So a file is
treated as it should be in two cases only: one of the four comparisons fails
inside the file, or the file is a complete luac file that the tables can take.

The reader works on the bytes of the file and nothing behind them, so a read at
or behind offset `fileSize` is the fault `readPast`.

* `IsLuac` — the file begins with a chunk; `FitsLuac` — with one that the tables
  of a report can take.
* `HeaderRejected` — one of the comparisons fails inside the file.
* `Analyses` — the file is read without leaving it, and 0 is returned exactly for
  a luac file.
* `report_accepts` — when that is so, and `report_leaves_file` — a file for which
  it is not.
-/

namespace LuatosPc.Luac

open LuatosPc.Bytes

variable {vm : Vm}

/-- The file begins with a luac header and the dump of a function. -/
def IsLuac (vm : Vm) (file : List UInt8) : Prop :=
  ∃ (strip : Bool) (f : Proto vm) (rest : List UInt8),
    file = luacHeader f ++ (dumpFunction strip none f ++ rest)

/-- The same, with a function whose tree fits into the tables of a report. -/
def FitsLuac (vm : Vm) (file : List UInt8) : Prop :=
  ∃ (strip : Bool) (f : Proto vm) (rest : List UInt8),
    file = luacHeader f ++ (dumpFunction strip none f ++ rest) ∧
      f.size ≤ 1024 ∧ ∀ g, f.entries strip g ≤ 32 * 1024

/-- One of the four comparisons of the header fails, inside the file. -/
inductive HeaderRejected (vm : Vm) : List UInt8 → Prop
  | signature {s rest : List UInt8} : s.length = 4 → s ≠ luaSignature →
      HeaderRejected vm (s ++ rest)
  | data {version d rest : List UInt8} : version.length = 2 → d.length = 6 → d ≠ luacData →
      HeaderRejected vm (luaSignature ++ (version ++ (d ++ rest)))
  | integer {version sizes x rest : List UInt8} : version.length = 2 → sizes.length = 5 →
      x.length = vm.size → wordOf vm x ≠ luacInt vm →
      HeaderRejected vm (luaSignature ++ (version ++ (luacData ++ (sizes ++ (x ++ rest)))))
  | number {version sizes x y rest : List UInt8} : version.length = 2 → sizes.length = 5 →
      x.length = vm.size → wordOf vm x = luacInt vm → y.length = vm.size →
      wordOf vm y ≠ luacNum vm →
      HeaderRejected vm (luaSignature ++ (version ++ (luacData ++ (sizes ++ (x ++ (y ++ rest))))))

/-- What a caller may expect for a file: `luadb_do_report_file` returns without
having left the file, and it returns 0 exactly if the file begins with a chunk. -/
def Analyses (vm : Vm) (file : List UInt8) : Prop :=
  ∃ code st, Yields (luadbDoReportFile : Load vm Int) ⟨file, Report.zero vm⟩ code st ∧
    (code = 0 ↔ IsLuac vm file)

/-! ## Reading forwards -/

/-- A rejected header is answered with a code that is not 0. -/
theorem HeaderRejected.yields {file : List UInt8} (h : HeaderRejected vm file) (rpt : Report vm) :
    ∃ code st, Yields (luadbDoReportFile : Load vm Int) ⟨file, rpt⟩ code st ∧ code ≠ 0 := by
  have hsignature : luaSignature.length = 4 := rfl
  have hdata : luacData.length = 6 := rfl
  unfold luadbDoReportFile
  cases h with
  | @signature s rest hs hne =>
    refine ⟨-1, ⟨rest, rpt⟩, (loads_block rpt rest hs).bind ?_, by decide⟩
    rw [if_pos hne]
    exact Yields.pure _ _
  | @data version d rest hv hd hne =>
    refine ⟨-1, ⟨rest, rpt⟩, (loads_block rpt _ hsignature).bind ?_, by decide⟩
    rw [if_neg (not_not.2 rfl)]
    refine (loads_skip rpt _ hv).bind ((loads_block rpt _ hd).bind ?_)
    rw [if_pos hne]
    exact Yields.pure _ _
  | @integer version sizes x rest hv hsz hx hne =>
    refine ⟨-1, ⟨rest, rpt⟩, (loads_block rpt _ hsignature).bind ?_, by decide⟩
    rw [if_neg (not_not.2 rfl)]
    refine (loads_skip rpt _ hv).bind ((loads_block rpt _ hdata).bind ?_)
    rw [if_neg (not_not.2 rfl)]
    refine (loads_skip rpt _ hsz).bind ((loads_wordOf rpt _ hx).bind ?_)
    rw [if_pos hne]
    exact Yields.pure _ _
  | @number version sizes x y rest hv hsz hx hint hy hne =>
    refine ⟨-3, ⟨rest, rpt⟩, (loads_block rpt _ hsignature).bind ?_, by decide⟩
    rw [if_neg (not_not.2 rfl)]
    refine (loads_skip rpt _ hv).bind ((loads_block rpt _ hdata).bind ?_)
    rw [if_neg (not_not.2 rfl)]
    refine (loads_skip rpt _ hsz).bind ((loads_wordOf rpt _ hx).bind ?_)
    rw [if_neg (not_not.2 hint)]
    refine Yields.bind (loads_wordOf rpt _ hy) ?_
    rw [if_pos hne]
    exact Yields.pure _ _

/-- The header of a chunk is not rejected. -/
theorem HeaderRejected.not_isLuac {file : List UInt8} (h : HeaderRejected vm file) :
    ¬ IsLuac vm file := by
  rintro ⟨strip, f, tail, heq⟩
  simp only [luacHeader, List.append_assoc] at heq
  -- the parts of both sides have the same lengths, so they are the same
  cases h with
  | signature hs hne => exact hne (List.append_inj heq hs).1
  | data hv hd hne =>
    have h₁ := (List.append_inj heq rfl).2
    have h₂ := (List.append_inj h₁ hv).2
    exact hne (List.append_inj h₂ hd).1
  | integer hv hsz hx hne =>
    have h₁ := (List.append_inj heq rfl).2
    have h₂ := (List.append_inj h₁ hv).2
    have h₃ := (List.append_inj h₂ rfl).2
    have h₄ := (List.append_inj h₃ hsz).2
    obtain ⟨rfl, -⟩ := List.append_inj h₄ (hx.trans (length_leBytes _ _).symm)
    exact hne (wordOf_leBytes _)
  | number hv hsz hx hint hy hne =>
    have h₁ := (List.append_inj heq rfl).2
    have h₂ := (List.append_inj h₁ hv).2
    have h₃ := (List.append_inj h₂ rfl).2
    have h₄ := (List.append_inj h₃ hsz).2
    have h₅ := (List.append_inj h₄ (hx.trans (length_leBytes _ _).symm)).2
    obtain ⟨rfl, -⟩ := List.append_inj h₅ (hy.trans (length_leBytes _ _).symm)
    exact hne (wordOf_leBytes _)

/-! ## Reading backwards -/

/-- A read behind skipped bytes shows that the skipped bytes were there. -/
theorem of_skip_loadBlock {file bs : List UInt8} {rpt : Report vm} {k n : Nat} {st st' : St vm}
    {u : Unit} (hn : 0 < n) (hskip : Yields (skip k) ⟨file, rpt⟩ u st)
    (h : Yields (loadBlock n) st bs st') :
    ∃ v rest, file = v ++ (bs ++ rest) ∧ v.length = k ∧ bs.length = n ∧ st' = ⟨rest, rpt⟩ := by
  have hst : st = ⟨file.drop k, rpt⟩ := by
    have : (Except.ok ((), ⟨file.drop k, rpt⟩) : Except Fault (Unit × St vm)) = .ok (u, st) := hskip
    simp only [Except.ok.injEq, Prod.mk.injEq] at this
    exact this.2.symm
  subst hst
  obtain ⟨rest, hrest, hlen, rfl⟩ := of_loadBlock h
  have hk : k ≤ file.length := by
    have := congrArg List.length hrest
    rw [List.length_drop, List.length_append] at this
    omega
  refine ⟨file.take k, rest, ?_, List.length_take_of_le hk, hlen, rfl⟩
  rw [← hrest, List.take_append_drop]

theorem size_pos (vm : Vm) : 0 < vm.size := by
  cases vm <;> decide

/-- Whatever `luadb_do_report_file` returns, it is 0 unless the header is
rejected. -/
theorem rejected_or_zero {file : List UInt8} {rpt : Report vm} {code : Int} {st : St vm}
    (h : Yields (luadbDoReportFile : Load vm Int) ⟨file, rpt⟩ code st) :
    HeaderRejected vm file ∨ code = 0 := by
  unfold luadbDoReportFile at h
  obtain ⟨s, st₁, hs, h⟩ := h.of_bind
  obtain ⟨rest, rfl, hslen, rfl⟩ := of_loadBlock hs
  by_cases hsig : s = luaSignature
  swap
  · exact Or.inl (.signature hslen hsig)
  rw [if_neg (not_not.2 hsig)] at h
  obtain ⟨u, st₂, hskip, h⟩ := h.of_bind
  obtain ⟨d, st₃, hd, h⟩ := h.of_bind
  obtain ⟨version, rest, rfl, hv, hdlen, rfl⟩ := of_skip_loadBlock (by decide) hskip hd
  by_cases hdata : d = luacData
  swap
  · rw [hsig]
    exact Or.inl (.data hv hdlen hdata)
  rw [if_neg (not_not.2 hdata)] at h
  obtain ⟨u, st₄, hskip, h⟩ := h.of_bind
  obtain ⟨x, st₅, hx, h⟩ := h.of_bind
  obtain ⟨bs, hbs, rfl⟩ := of_loadInteger hx
  obtain ⟨sizes, rest, rfl, hsz, hxlen, rfl⟩ := of_skip_loadBlock (size_pos vm) hskip hbs
  by_cases hint : wordOf vm bs = luacInt vm
  swap
  · rw [hsig, hdata]
    exact Or.inl (.integer hv hsz hxlen hint)
  rw [if_neg (not_not.2 hint)] at h
  obtain ⟨y, st₆, hy, h⟩ := h.of_bind
  obtain ⟨cs, hcs, rfl⟩ := of_loadInteger hy
  obtain ⟨rest, rfl, hylen, rfl⟩ := of_loadBlock hcs
  by_cases hnum : wordOf vm cs = luacNum vm
  swap
  · rw [hsig, hdata]
    exact Or.inl (.number hv hsz hxlen hint hylen hnum)
  rw [if_neg (not_not.2 hnum)] at h
  -- from here on nothing but 0 is returned
  obtain ⟨-, st₇, -, h⟩ := h.of_bind
  obtain ⟨-, st₈, -, h⟩ := h.of_bind
  exact Or.inr (h.unique (Yields.pure _ _)).1

/-! ## The two kinds of files that are treated well -/

/-- **The report accepts luac files only, and stays inside them**, exactly if the file is one
that the tables can take, or if the header shows that it is none. -/
theorem report_accepts {file : List UInt8} (hmem : file.length < 2 ^ 32) :
    Analyses vm file ↔ HeaderRejected vm file ∨ FitsLuac vm file := by
  constructor
  · rintro ⟨code, st, hyields, hcode⟩
    rcases rejected_or_zero hyields with hrej | hzero
    · exact Or.inl hrej
    · obtain ⟨strip, f, rest, rfl⟩ := hcode.1 hzero
      refine Or.inr ⟨strip, f, rest, rfl, ?_⟩
      -- a chunk that does not fit stops the reader
      by_contra hfits
      have herr := (chunk_overrun_iff ⟨strip, f, rest⟩ hmem).2 hfits
      cases herr.symm.trans hyields
  · rintro (hrej | ⟨strip, f, rest, rfl, hfuncs, hgroups⟩)
    · obtain ⟨code, st, hyields, hcode⟩ := hrej.yields (Report.zero vm)
      exact ⟨code, st, hyields, fun h => absurd h hcode, fun h => absurd h hrej.not_isLuac⟩
    · simp only [List.length_append] at hmem
      obtain ⟨rpt, hload, -⟩ := loads_chunk strip f rest hfuncs hgroups (by omega)
      exact ⟨0, ⟨rest, rpt⟩, hload, fun _ => ⟨strip, f, rest, rfl⟩, fun _ => rfl⟩

set_option maxRecDepth 4000 in
theorem report_accepts_sample :
    Analyses .bit32 (luacHeader sampleProto ++ (dumpFunction false none sampleProto ++ [])) :=
  (report_accepts (by decide)).2 (Or.inr ⟨false, sampleProto, [], rfl, by decide,
    fun g => by cases g <;> decide⟩)

theorem dumpFunction_ne_nil (strip : Bool) (psource : Option Str) (f : Proto vm) :
    dumpFunction strip psource f ≠ [] := by
  cases f with
  | mk b p => simp [dumpFunction]

/-- A file cut off behind its header. -/
def cutFile : List UInt8 := luacHeader sampleProto

set_option maxRecDepth 4000 in
/-- The reader goes on behind the end of the file, and returns 0 if the bytes it
finds there let it. -/
theorem report_leaves_file :
    ¬ IsLuac .bit32 cutFile ∧
      (luadbDoReportFile : Load .bit32 Int) ⟨cutFile, Report.zero .bit32⟩ = .error .readPast ∧
      ∃ st, Yields luadbDoReportFile
        ⟨cutFile ++ (dumpFunction false none sampleProto ++ []), Report.zero .bit32⟩ 0 st := by
  refine ⟨?_, rfl, ?_⟩
  · rintro ⟨strip, f, rest, heq⟩
    have hlen := congrArg List.length heq
    rw [cutFile, length_luacHeader, List.length_append, length_luacHeader, List.length_append] at hlen
    have hpos := List.length_pos_of_ne_nil (dumpFunction_ne_nil strip none f)
    omega
  · obtain ⟨rpt, hload, -⟩ := loads_chunk false sampleProto [] (by decide)
      (fun g => by cases g <;> decide) (by decide)
    exact ⟨⟨[], rpt⟩, hload⟩

end LuatosPc.Luac
