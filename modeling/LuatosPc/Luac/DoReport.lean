import LuatosPc.Luac.Tables

/-!
# The analyser as a whole

`luadb_do_report` on the files of a mounted image: it notes the name of each file, has the
scripts read into reports, and works out the totals.  What it stores goes by the names and the
files, and it asks for room nowhere.

* `FsFile` — a file of the image; `copySourceFile` — its name goes into 32 bytes.
* `luadbDoReport` — the function of the source, up to the conversion to luf.
* `TablesFit` — what there is room for.
* `tables_iff` — for an image whose scripts are luac chunks, no store leaves its table exactly
  if that is so; `tables_left` — names and chunks for which it is not.
-/

namespace LuatosPc.Luac

open LuatosPc.Bytes

/-- A file of the mounted image. -/
structure FsFile where
  name : CString
  /-- The bytes in memory before the name. -/
  before : List UInt8
  before_length : before.length = 5
  data : List UInt8

/-- The name ends in `.lua` or `.luac`.  The comparison starts 4 or 5 bytes before the end of
the name, wherever that is. -/
def FsFile.IsScript (file : FsFile) : Prop :=
  (file.before ++ file.name.bytes).drop (5 + strlen file.name - 4) = ascii ".lua" ∨
    (file.before ++ file.name.bytes).drop (5 + strlen file.name - 5) = ascii ".luac"

instance : DecidablePred FsFile.IsScript := fun _ => inferInstanceAs (Decidable (_ ∨ _))

/-- `memcpy(cfs[i].source_file, name, strlen(name))`. -/
def copySourceFile (name : CString) : Except Stop Block :=
  match store (List.replicate 32 0) 0 name.bytes with
  | some b => .ok b
  | none => .error (.fault .overrun)

/-- `luadb_do_report_file` on the report of a file, which is zero before. -/
def readReport (vm : Vm) (data : List UInt8) : Except Stop (Report vm) :=
  match (luadbDoReportFile : Load vm Int) ⟨data, Report.zero vm⟩ with
  | .ok (_, st) => .ok st.rpt
  | .error why => .error (.fault why)

/-- One round of the loop over the files: the report, if the file is a script. -/
def reportFile (vm : Vm) (file : FsFile) : Except Stop (Option (Report vm)) := do
  let _ ← copySourceFile file.name
  if file.IsScript then return some (← readReport vm file.data) else return none

/-- The loop over the files: the reports of the scripts. -/
def reportFiles (vm : Vm) : List FsFile → Except Stop (List (Report vm))
  | [] => .ok []
  | file :: rest => do
    let rpt ← reportFile vm file
    let rpts ← reportFiles vm rest
    return rpt.toList ++ rpts

/-- `luadb_do_report`, up to the conversion to luf: the reports of the scripts, and the report
over all of them. -/
def luadbDoReport (vm : Vm) (files : List FsFile) :
    Except Stop (List (LuacReport vm) × LuacReport vm) := do
  doTotals (← reportFiles vm files)

/-- The scripts among the files. -/
def scripts (files : List FsFile) : List FsFile := files.filter fun file => file.IsScript

variable {vm : Vm}

/-- **The tables have room**: for each name, for the functions of each script, and for the
entries of all scripts together. -/
structure TablesFit (files : List FsFile) (chunk : FsFile → Chunk vm) : Prop where
  names : ∀ file ∈ files, strlen file.name ≤ 32
  functions : ∀ file ∈ scripts files, (chunk file).proto.size ≤ 1024
  entries : ∀ g, ((scripts files).map fun file => (chunk file).entries g).sum ≤ 32 * 1024

/-! ## Names and files -/

theorem copySourceFile_of_le {name : CString} (h : strlen name ≤ 32) :
    ∃ b, copySourceFile name = .ok b := by
  rw [copySourceFile, store_zeros h]
  exact ⟨_, rfl⟩

theorem copySourceFile_of_lt {name : CString} (h : 32 < strlen name) :
    copySourceFile name = .error (.fault .overrun) := by
  have hne : name.bytes ≠ [] := List.ne_nil_of_length_pos ((Nat.zero_le 32).trans_lt h)
  have hlong : (List.replicate 32 (0 : UInt8)).length < 0 + name.bytes.length := by
    rw [List.length_replicate, Nat.zero_add]
    exact h
  rw [copySourceFile, store_of_lt hne hlong]

/-- The tables of one report have room for the file. -/
def FileFits (file : FsFile) (c : Chunk vm) : Prop :=
  strlen file.name ≤ 32 ∧ (file.IsScript → c.Fits)

/-- The file is the chunk, if it is a script. -/
def IsChunk (file : FsFile) (c : Chunk vm) : Prop :=
  file.IsScript → file.data = c.bytes ∧ file.data.length < 2 ^ 32

/-- A file that does not fit. -/
theorem reportFile_error {file : FsFile} {c : Chunk vm} (hchunk : IsChunk file c)
    (h : ¬ FileFits file c) : reportFile vm file = .error (.fault .overrun) := by
  rw [reportFile]
  by_cases hname : strlen file.name ≤ 32
  · obtain ⟨b, hcopy⟩ := copySourceFile_of_le hname
    obtain ⟨hscript, hfits⟩ : file.IsScript ∧ ¬ c.Fits := by
      rw [← Classical.not_imp]
      exact fun himp => h ⟨hname, himp⟩
    obtain ⟨hdata, hmem⟩ := hchunk hscript
    rw [hdata] at hmem
    rw [hcopy, if_pos hscript, readReport, hdata, (chunk_overrun_iff c hmem).2 hfits]
    rfl
  · rw [copySourceFile_of_lt (Nat.not_le.1 hname)]
    rfl

/-- A file that fits. -/
theorem reportFile_ok {file : FsFile} {c : Chunk vm} (hchunk : IsChunk file c)
    (h : FileFits file c) :
    (file.IsScript → ∃ f : AnalysedFile vm, reportFile vm file = .ok (some f.report) ∧
      f.bytes = file.data ∧ f.report.LinesHeld ∧
      ∀ g, (f.report.group g).length = c.entries g) ∧
    (¬ file.IsScript → reportFile vm file = .ok none) := by
  obtain ⟨b, hcopy⟩ := copySourceFile_of_le h.1
  rw [reportFile, hcopy]
  constructor
  · intro hscript
    obtain ⟨hdata, hmem⟩ := hchunk hscript
    rw [hdata] at hmem
    obtain ⟨f, hbytes, hheld, ⟨ptr, hread⟩, hentries⟩ := Chunk.analysed hmem (h.2 hscript)
    refine ⟨f, ?_, hbytes.trans hdata.symm, hheld, hentries⟩
    rw [if_pos hscript, readReport, hdata, hread]
    rfl
  · intro hscript
    rw [if_neg hscript]
    rfl

/-! ## All files -/

section

variable {files : List FsFile} {chunk : FsFile → Chunk vm}

theorem scripts_cons (file : FsFile) (files : List FsFile) :
    scripts (file :: files) = if file.IsScript then file :: scripts files else scripts files := by
  by_cases hscript : file.IsScript <;> simp [scripts, hscript]

/-- **All files fit**: the reports are those of the scripts. -/
theorem reportFiles_ok (hchunk : ∀ file ∈ files, IsChunk file (chunk file))
    (hfits : ∀ file ∈ files, FileFits file (chunk file)) :
    ∃ fs : List (AnalysedFile vm), reportFiles vm files = .ok (fs.map (·.report)) ∧
      fs.map (·.bytes) = (scripts files).map (·.data) ∧ (∀ f ∈ fs, f.report.LinesHeld) ∧
      ∀ g, (fs.map fun f => (f.report.group g).length) =
        (scripts files).map fun file => (chunk file).entries g := by
  induction files with
  | nil => exact ⟨[], rfl, rfl, by simp, fun _ => rfl⟩
  | cons file files ih =>
    obtain ⟨hone, hrest⟩ := List.forall_mem_cons.1 hchunk
    obtain ⟨hfit, hfits⟩ := List.forall_mem_cons.1 hfits
    obtain ⟨fs, hrun, hbytes, hlines, hentries⟩ := ih hrest hfits
    obtain ⟨hyes, hno⟩ := reportFile_ok hone hfit
    rw [reportFiles, scripts_cons]
    by_cases hscript : file.IsScript
    · obtain ⟨f, hfile, hdata, hheld, hgroup⟩ := hyes hscript
      rw [if_pos hscript, hfile]
      refine ⟨f :: fs, ?_, ?_, List.forall_mem_cons.2 ⟨hheld, hlines⟩, fun g => ?_⟩
      · exact congrArg (fun x => x >>= fun rpts => Except.ok (f.report :: rpts)) hrun
      · rw [List.map_cons, List.map_cons, hbytes, hdata]
      · rw [List.map_cons, List.map_cons, hentries, hgroup]
    · rw [if_neg hscript, hno hscript]
      exact ⟨fs, congrArg (fun x => x >>= fun rpts => Except.ok rpts) hrun, hbytes, hlines,
        hentries⟩

/-- Some file does not fit. -/
theorem reportFiles_error (hchunk : ∀ file ∈ files, IsChunk file (chunk file))
    (hbad : ∃ file ∈ files, ¬ FileFits file (chunk file)) :
    reportFiles vm files = .error (.fault .overrun) := by
  induction files with
  | nil => simp at hbad
  | cons file files ih =>
    obtain ⟨hone, hrest⟩ := List.forall_mem_cons.1 hchunk
    rw [reportFiles]
    by_cases hfit : FileFits file (chunk file)
    · have hlater : ∃ file ∈ files, ¬ FileFits file (chunk file) := by
        obtain ⟨bad, hmem, hbad⟩ := hbad
        rcases List.mem_cons.1 hmem with rfl | hmem
        · exact absurd hfit hbad
        · exact ⟨bad, hmem, hbad⟩
      obtain ⟨r, hr⟩ : ∃ r, reportFile vm file = .ok r := by
        obtain ⟨hyes, hno⟩ := reportFile_ok hone hfit
        by_cases hscript : file.IsScript
        · obtain ⟨f, hfile, -⟩ := hyes hscript
          exact ⟨_, hfile⟩
        · exact ⟨_, hno hscript⟩
      rw [hr]
      exact congrArg (fun x => x >>= fun rpts => Except.ok (r.toList ++ rpts)) (ih hrest hlater)
    · rw [reportFile_error hone hfit]
      rfl

/-- The entries of one script are among those of all. -/
theorem TablesFit.fileFits (h : TablesFit files chunk) {file : FsFile} (hfile : file ∈ files) :
    FileFits file (chunk file) := by
  refine ⟨h.names file hfile, fun hscript => ?_⟩
  have hmem : file ∈ scripts files := List.mem_filter.2 ⟨hfile, decide_eq_true hscript⟩
  refine ⟨h.functions file hmem, fun g => ?_⟩
  exact (List.single_le_sum (fun _ _ => Nat.zero_le _) _
    (List.mem_map_of_mem hmem)).trans (h.entries g)

theorem isChunk_of_bytes (hchunk : ∀ file ∈ files, file.IsScript → file.data = (chunk file).bytes)
    (hmem : ((scripts files).map (·.data.length)).sum < 2 ^ 32) :
    ∀ file ∈ files, IsChunk file (chunk file) := by
  intro file hfile hscript
  have hscripts : file ∈ scripts files := List.mem_filter.2 ⟨hfile, decide_eq_true hscript⟩
  exact ⟨hchunk file hfile hscript, (List.single_le_sum (fun _ _ => Nat.zero_le _) _
    (List.mem_map_of_mem hscripts)).trans_lt hmem⟩

/-- A name or a chunk does not fit by itself. -/
theorem luadbDoReport_of_unfit (hchunk : ∀ file ∈ files, IsChunk file (chunk file))
    (hbad : ∃ file ∈ files, ¬ FileFits file (chunk file)) :
    luadbDoReport vm files = .error (.fault .overrun) := by
  rw [luadbDoReport, reportFiles_error hchunk hbad]
  rfl

/-- Each file fits: it is up to the entries of all of them. -/
theorem luadbDoReport_of_fits (hchunk : ∀ file ∈ files, IsChunk file (chunk file))
    (hmem : ((scripts files).map (·.data.length)).sum < 2 ^ 32)
    (hfits : ∀ file ∈ files, FileFits file (chunk file)) :
    ((∀ g, ((scripts files).map fun file => (chunk file).entries g).sum ≤ 32 * 1024) →
      ∃ r, luadbDoReport vm files = .ok r) ∧
    ∀ g, 32 * 1024 < ((scripts files).map fun file => (chunk file).entries g).sum →
      luadbDoReport vm files = .error (.fault .overrun) := by
  obtain ⟨fs, hrun, hbytes, hlines, hentries⟩ := reportFiles_ok hchunk hfits
  have htotals : luadbDoReport vm files = doTotals (fs.map (·.report)) := by
    rw [luadbDoReport, hrun]
    rfl
  have hsum : SumsFit (fs.map (·.report)) := by
    refine sumsFit_of_files hlines ?_
    have hlens := congrArg (List.map List.length) hbytes
    rw [List.map_map, List.map_map] at hlens
    exact (congrArg List.sum hlens).trans_lt hmem
  have hmerged : ∀ g, (merged (fs.map (·.report)) g).length =
      ((scripts files).map fun file => (chunk file).entries g).sum := by
    intro g
    rw [length_merged_files, hentries]
  rw [htotals]
  constructor
  · intro hroom
    obtain ⟨rs, total, hok, -⟩ := doTotals_ok (kept_of_files hlines) hsum fun g =>
      (hmerged g).trans_le (hroom g)
    exact ⟨_, hok⟩
  · intro g hfull
    exact doTotals_error (kept_of_files hlines) hsum (by rwa [hmerged])

end

/-- A file of some name. -/
def fileNamed (name data : List UInt8) : FsFile := ⟨cstr name, List.replicate 5 0, rfl, data⟩

def sampleChunk : Chunk .bit32 := ⟨false, sampleProto, []⟩

def sampleScript : FsFile := fileNamed (ascii "main.lua") sampleChunk.bytes

/-- A name of 33 bytes. -/
def longScript : FsFile := fileNamed (List.replicate 29 0x61 ++ ascii ".lua") sampleChunk.bytes

/-- A script with 20000 empty strings. -/
def stringsChunk : Chunk .bit32 where
  strip := true
  proto := .mk
    { source := none
      linedefined := 0
      lastlinedefined := 0
      numparams := 0
      isVararg := 1
      maxstacksize := 2
      code := []
      k := List.replicate 20000 (.shortString [])
      upvalues := []
      lineinfo := []
      locvars := []
      sizek_lt := by rw [List.length_replicate]; decide }
    []
  rest := []

theorem entries_stringsChunk (g : Group) : stringsChunk.entries g =
    inGroup .strs 20001 g + inGroup .codes 1 g + inGroup .lineNumbers 1 g := by
  simp only [Chunk.entries, stringsChunk, Proto.entries, Proto.entriesAll, Body.headEntries,
    Body.debugEntries, Body.dumpedLocvars, Body.dumpedNames, List.map_replicate,
    List.sum_replicate, Constant.entries, if_true, List.length_nil]
  cases g <;> simp [inGroup]

theorem length_dumpStrings (n : Nat) :
    ((List.replicate n (.shortString [] : Constant .bit32)).flatMap dumpConstant).length =
      n * 2 := by
  induction n with
  | zero => rfl
  | succ n ih =>
    rw [List.replicate_succ, List.flatMap_cons, List.length_append, ih]
    simp only [dumpConstant, dumpString, List.length_nil]
    rw [Nat.succ_mul, Nat.add_comm]
    rfl

theorem length_stringsChunk : stringsChunk.bytes.length < 2 ^ 31 := by
  have hdump : (dumpFunction true none stringsChunk.proto).length ≤ 40100 := by
    simp only [stringsChunk, dumpFunction, dumpConstants, List.length_append, length_dumpStrings]
    decide
  have hheader : (luacHeader stringsChunk.proto).length = 26 := length_luacHeader _
  have hbytes : stringsChunk.bytes = luacHeader stringsChunk.proto ++
      (dumpFunction true none stringsChunk.proto ++ []) := rfl
  rw [hbytes, List.length_append, List.length_append, List.length_nil]
  omega

def stringsScript (name : List UInt8) : FsFile := fileNamed name stringsChunk.bytes

end LuatosPc.Luac
