import LuatosPc.Cmd.BaseName
import LuatosPc.Cmd.LuaTools

/-!
# The buffers that paths are put together in

`luat_cmd_load_luatools` copies the directory of a section to `dirline` and puts the path of
an entry together in `rpath`; `check_file_path` puts the path of a directory entry together in
`buff`, from which `add_onefile` copies a name to `tmpname`.  None of the copies asks how much
there is room for; `check_file_path` asks once, before anything is put behind the path.

* `copyDirline`, `makeRpath`, `fillLine`, `fillLines` — the statements of the loop that write
  to `dirline` and `rpath`, as stores into blocks of 512 and 1024 bytes.
* `LineFits` — the room that a line needs; `fillLine_spec` — with it the blocks hold what the
  model of the loop takes them to hold, without it a store leaves its block;
  `lineAction_overflow_iff` — which is where that model stops.
* `joinPath` — the `sprintf` of `check_file_path`; `joinEntry`, `fillBuff` — with the copies of
  `add_onefile`, for one entry and for the entries of a directory; `joinPath_eq_none_iff` — a
  path leaves `buff` where the model of the loop over the entries stops.
* `path_buffers_iff` — when all of this is in range.
-/

namespace LuatosPc.Cmd

open LuatosPc.Bytes LuatosPc.Luadb

/-! ## `dirline` and `rpath` -/

/-- The block holds a string and its terminator. -/
def HoldsStr (b : Block) (v : List UInt8) : Prop := 0 ∉ v ∧ ∃ rest, b = v ++ 0 :: rest

/-- `memcpy(dirline, ret + 1, retlen - 2)` and `dirline[retlen - 2] = 0x00`. -/
def copyDirline (dirline : Block) (line : List UInt8) : Option Block :=
  (store dirline 0 (headerDir line)).bind fun b => poke b (line.length - 2) 0

/-- The statements that fill `rpath`: the directory, the separator, and the name behind what
`strlen` finds. -/
def makeRpath (s : UInt8) (dirline : Block) (name : List UInt8) : Option Block := do
  let rpath ← store (List.replicate 1024 0) 0 (cstr dirline).bytes
  let rpath ← poke rpath (strlen (cstr dirline)) s
  store rpath (strlen (cstr rpath)) name

/-- One line, as far as it concerns the two buffers: `dirline`, and `rpath` if it is filled. -/
def fillLine (s : UInt8) (dirline : Block) (line : List UInt8) : Option (Block × Option Block) :=
  if line = ascii "[info]" ∨ line.length ≤ 5 then some (dirline, none)
  else if IsHeader line then (copyDirline dirline line).map fun b => (b, none)
  else if dirline.getD 0 0 = 0 then some (dirline, none)
  else if (entryKey line).length = line.length then some (dirline, none)
  else (makeRpath s dirline (entryKey line)).map fun r => (dirline, some r)

/-- The lines one after the other: `dirline` behind them. -/
def fillLines (s : UInt8) (dirline : Block) : List (List UInt8) → Option Block
  | [] => some dirline
  | line :: rest => (fillLine s dirline line).bind fun p => fillLines s p.1 rest

/-- A line for which `rpath` is filled. -/
def IsEntry (dirline line : List UInt8) : Prop :=
  line ≠ ascii "[info]" ∧ 5 < line.length ∧ ¬ IsHeader line ∧ dirline ≠ [] ∧
    (entryKey line).length ≠ line.length

instance (dirline : List UInt8) : DecidablePred (IsEntry dirline) := fun _ =>
  inferInstanceAs (Decidable (_ ∧ _ ∧ _ ∧ _ ∧ _))

/-- **The room that a line needs**: a directory and its terminator have 512 bytes, the path of
an entry has 1024. -/
structure LineFits (dirline line : List UInt8) : Prop where
  header : Seen line → (headerDir line).length < 512
  entry : IsEntry dirline line → dirline.length + 1 + (entryKey line).length ≤ 1024

section

variable {s : UInt8} {b : Block} {dirline line name : List UInt8}

theorem HoldsStr.cstr_eq (h : HoldsStr b dirline) : (cstr b).bytes = dirline := by
  obtain ⟨hnul, rest, rfl⟩ := h
  exact bytes_cstr_terminated hnul rest

theorem HoldsStr.getD_eq_zero_iff (h : HoldsStr b dirline) : b.getD 0 0 = 0 ↔ dirline = [] := by
  obtain ⟨hnul, rest, rfl⟩ := h
  constructor
  · intro hzero
    by_contra hne
    exact getD_zero_ne_zero hne hnul hzero
  · rintro rfl
    rfl

/-- `dirline` at the start. -/
theorem holdsStr_empty : HoldsStr (List.replicate 512 0) [] :=
  ⟨List.not_mem_nil, List.replicate 511 0, rfl⟩

theorem length_headerDir (h : Seen line) : (headerDir line).length = line.length - 2 := by
  have hlong := h.2.2
  rw [headerDir, List.length_take, List.length_drop]
  omega

/-- A directory and its terminator are stored in a row. -/
theorem copyDirline_eq (hseen : Seen line) :
    copyDirline b line = store b 0 (headerDir line ++ [0]) := by
  rw [store_append, copyDirline, ← length_headerDir hseen, Nat.zero_add]
  simp only [store_singleton]

/-- A directory that fits. -/
theorem copyDirline_of_lt (hb : b.length = 512) (hseen : Seen line) (hnul : 0 ∉ line)
    (hfits : (headerDir line).length < 512) :
    ∃ b', copyDirline b line = some b' ∧ b'.length = 512 ∧ HoldsStr b' (headerDir line) := by
  have hroom : 0 + (headerDir line ++ [0]).length ≤ b.length := by
    rw [List.length_append, List.length_singleton, hb]
    omega
  refine ⟨_, (copyDirline_eq hseen).trans (store_of_le hroom), ?_, ?_, ?_⟩
  · rw [length_overwrite hroom, hb]
  · intro hzero
    exact hnul (List.mem_of_mem_drop (List.mem_of_mem_take hzero))
  · exact ⟨_, by rw [overwrite, List.take_zero, List.nil_append, List.append_assoc]; rfl⟩

/-- A directory that does not. -/
theorem copyDirline_of_le (hb : b.length = 512) (hseen : Seen line)
    (hlong : 512 ≤ (headerDir line).length) : copyDirline b line = none := by
  rw [copyDirline_eq hseen]
  refine store_of_lt (by simp) ?_
  rw [List.length_append, List.length_singleton, hb]
  omega

/-- A path is stored in a row, too. -/
theorem makeRpath_eq (h : HoldsStr b dirline) (hs : s ≠ 0) (hroom : dirline.length + 1 ≤ 1024) :
    makeRpath s b name = store (List.replicate 1024 0) 0 (dirline ++ [s] ++ name) := by
  have hlen : (dirline ++ [s]).length = dirline.length + 1 := by simp
  have hnul : 0 ∉ dirline ++ [s] := by
    simpa [Ne.symm hs] using h.1
  have hfront : store (List.replicate 1024 0) 0 (dirline ++ [s]) =
      some (dirline ++ [s] ++ List.replicate (1024 - (dirline ++ [s]).length) 0) :=
    store_zeros (hlen.trans_le hroom)
  have hstrlen : strlen (cstr (dirline ++ [s] ++
      List.replicate (1024 - (dirline ++ [s]).length) 0)) = 0 + (dirline ++ [s]).length := by
    rw [strlen, bytes_cstr_zeros hnul, Nat.zero_add]
  have htwo : ((store (List.replicate 1024 0) 0 dirline).bind fun r =>
      poke r dirline.length s) = store (List.replicate 1024 0) 0 (dirline ++ [s]) := by
    rw [store_append, Nat.zero_add]
    simp only [store_singleton]
  calc makeRpath s b name
      = ((store (List.replicate 1024 0) 0 dirline).bind fun r => poke r dirline.length s).bind
          fun r => store r (strlen (cstr r)) name := by
        rw [makeRpath, strlen, h.cstr_eq, Option.bind_assoc]
        rfl
    _ = store (List.replicate 1024 0) 0 (dirline ++ [s] ++ name) := by
        rw [htwo, store_append (dirline ++ [s]) name, hfront, Option.bind_some, Option.bind_some,
          hstrlen]

/-- A path that fits. -/
theorem makeRpath_of_le (h : HoldsStr b dirline) (hs : s ≠ 0)
    (hfits : dirline.length + 1 + name.length ≤ 1024) :
    makeRpath s b name = some (dirline ++ [s] ++ name ++
      List.replicate (1024 - (dirline ++ [s] ++ name).length) 0) := by
  have hlen : (dirline ++ [s] ++ name).length = dirline.length + 1 + name.length := by
    rw [List.length_append, List.length_append, List.length_singleton]
  rw [makeRpath_eq h hs (by omega)]
  exact store_zeros (hlen.trans_le hfits)

/-- A path that does not, for a directory that does. -/
theorem makeRpath_of_lt (h : HoldsStr b dirline) (hb : b.length = 512) (hs : s ≠ 0)
    (hlong : 1024 < dirline.length + 1 + name.length) : makeRpath s b name = none := by
  have hdir : dirline.length < 512 := by
    obtain ⟨-, rest, rfl⟩ := h
    rw [List.length_append, List.length_cons] at hb
    omega
  rw [makeRpath_eq h hs (by omega)]
  refine store_of_lt (by simp) ?_
  rw [List.length_replicate, List.length_append, List.length_append, List.length_singleton]
  omega

theorem not_isEntry_of_seen (h : Seen line) : ¬ IsEntry dirline line := fun hentry =>
  hentry.2.2.1 h.1

/-- The branches of the loop at a line: it is a header, an entry, or nothing of interest. -/
theorem line_ite {α : Type*} (skip header entry : α) :
    (if line = ascii "[info]" ∨ line.length ≤ 5 then skip
      else if IsHeader line then header
      else if dirline = [] then skip
      else if (entryKey line).length = line.length then skip
      else entry) =
    if Seen line then header else if IsEntry dirline line then entry else skip := by
  by_cases hlook : line ≠ ascii "[info]" ∧ 5 < line.length
  · rw [if_neg (not_or.2 ⟨hlook.1, Nat.not_le.2 hlook.2⟩)]
    by_cases hheader : IsHeader line
    · rw [if_pos hheader, if_pos ⟨hheader, hlook⟩]
    rw [if_neg hheader, if_neg fun h : Seen line => hheader h.1]
    by_cases hdir : dirline = []
    · rw [if_pos hdir, if_neg fun h : IsEntry dirline line => h.2.2.2.1 hdir]
    rw [if_neg hdir]
    by_cases hkey : (entryKey line).length = line.length
    · rw [if_pos hkey, if_neg fun h : IsEntry dirline line => h.2.2.2.2 hkey]
    · rw [if_neg hkey, if_pos ⟨hlook.1, hlook.2, hheader, hdir, hkey⟩]
  · have hskip : line = ascii "[info]" ∨ line.length ≤ 5 := by
      rw [not_and_or, not_not, Nat.not_lt] at hlook
      exact hlook
    rw [if_pos hskip, if_neg fun h : Seen line => hlook h.2,
      if_neg fun h : IsEntry dirline line => hlook ⟨h.1, h.2.1⟩]

theorem fillLine_eq (h : HoldsStr b dirline) :
    fillLine s b line =
      if Seen line then (copyDirline b line).map fun b => (b, none)
      else if IsEntry dirline line then (makeRpath s b (entryKey line)).map fun r => (b, some r)
      else some (b, none) := by
  rw [← line_ite, fillLine]
  exact if_congr Iff.rfl rfl (if_congr Iff.rfl rfl (if_congr h.getD_eq_zero_iff rfl rfl))

theorem lineAction_eq :
    lineAction s dirline line =
      if Seen line then if 512 ≤ (headerDir line).length then .overflow else .enter
      else if IsEntry dirline line then
        if 1024 ≤ (dirline ++ [s] ++ entryKey line).length then .overflow
        else .check (dirline ++ [s] ++ entryKey line)
      else .skip := by
  rw [← line_ite, lineAction]

theorem lineFits_of_seen (h : Seen line) :
    LineFits dirline line ↔ (headerDir line).length < 512 :=
  ⟨fun hfits => hfits.header h,
    fun hlt => ⟨fun _ => hlt, fun he => absurd he (not_isEntry_of_seen h)⟩⟩

theorem lineFits_of_isEntry (h : IsEntry dirline line) :
    LineFits dirline line ↔ dirline.length + 1 + (entryKey line).length ≤ 1024 :=
  ⟨fun hfits => hfits.entry h,
    fun hle => ⟨fun hseen => absurd h (not_isEntry_of_seen hseen), fun _ => hle⟩⟩

theorem lineFits_of_neither (hseen : ¬ Seen line) (hentry : ¬ IsEntry dirline line) :
    LineFits dirline line :=
  ⟨fun h => absurd h hseen, fun h => absurd h hentry⟩

/-- **One line.**  With room for it, `dirline` holds what the model of the loop takes it to
hold, and `rpath` the path of an entry; without, a store leaves its block. -/
theorem fillLine_spec (h : HoldsStr b dirline) (hb : b.length = 512) (hs : s ≠ 0)
    (hnul : 0 ∉ line) :
    (LineFits dirline line → ∃ b' r, fillLine s b line = some (b', r) ∧ b'.length = 512 ∧
      HoldsStr b' (if Seen line then headerDir line else dirline) ∧
      (IsEntry dirline line → ∃ rest, r = some (dirline ++ [s] ++ entryKey line ++ rest))) ∧
    (¬ LineFits dirline line → fillLine s b line = none) := by
  rw [fillLine_eq h]
  by_cases hseen : Seen line
  · rw [if_pos hseen, if_pos hseen, lineFits_of_seen hseen, Nat.not_lt]
    constructor
    · intro hfits
      obtain ⟨b', hcopy, hlen, hholds⟩ := copyDirline_of_lt hb hseen hnul hfits
      rw [hcopy]
      exact ⟨b', none, rfl, hlen, hholds, fun he => absurd he (not_isEntry_of_seen hseen)⟩
    · intro hlong
      rw [copyDirline_of_le hb hseen hlong]
      rfl
  rw [if_neg hseen, if_neg hseen]
  by_cases hentry : IsEntry dirline line
  · rw [if_pos hentry, lineFits_of_isEntry hentry, Nat.not_le]
    constructor
    · intro hfits
      rw [makeRpath_of_le h hs hfits]
      exact ⟨b, _, rfl, hb, h, fun _ => ⟨_, rfl⟩⟩
    · intro hlong
      rw [makeRpath_of_lt h hb hs hlong]
      rfl
  · rw [if_neg hentry]
    exact ⟨fun _ => ⟨b, none, rfl, hb, h, fun he => absurd he hentry⟩,
      fun hfits => absurd (lineFits_of_neither hseen hentry) hfits⟩

/-- **All lines.** -/
theorem fillLines_iff {lines : List (List UInt8)} (h : HoldsStr b dirline) (hb : b.length = 512)
    (hs : s ≠ 0) (hnul : ∀ line ∈ lines, 0 ∉ line) :
    fillLines s b lines ≠ none ↔
      ∀ i line, lines[i]? = some line → LineFits (dirlineAfter dirline (lines.take i)) line := by
  induction lines generalizing b dirline with
  | nil => simp [fillLines]
  | cons first rest ih =>
    obtain ⟨hin, hout⟩ := fillLine_spec h hb hs (hnul first List.mem_cons_self)
    rw [fillLines]
    by_cases hfits : LineFits dirline first
    · obtain ⟨b', r, hfill, hb', hholds, -⟩ := hin hfits
      rw [hfill, Option.bind_some, ih hholds hb' fun line hl => hnul line (List.mem_cons_of_mem _ hl)]
      constructor
      · intro hrest i line hline
        cases i with
        | zero =>
          cases hline
          exact hfits
        | succ i =>
          rw [List.take_succ_cons, dirlineAfter_cons]
          exact hrest i line hline
      · intro hall i line hline
        have hline' := hall (i + 1) line hline
        rwa [List.take_succ_cons, dirlineAfter_cons] at hline'
    · rw [hout hfits]
      refine iff_of_false (by simp) fun hall => hfits ?_
      exact hall 0 first rfl

/-- **Where the model of the loop stops**: a store leaves its block, or `rpath` is full and has
no terminator. -/
theorem lineAction_overflow_iff :
    lineAction s dirline line = .overflow ↔ ¬ LineFits dirline line ∨
      IsEntry dirline line ∧ dirline.length + 1 + (entryKey line).length = 1024 := by
  rw [lineAction_eq]
  by_cases hseen : Seen line
  · rw [if_pos hseen, lineFits_of_seen hseen, Nat.not_lt]
    by_cases hlong : 512 ≤ (headerDir line).length
    · simp [hlong]
    · simp [hlong, not_isEntry_of_seen hseen]
  rw [if_neg hseen]
  by_cases hentry : IsEntry dirline line
  · have hlen : (dirline ++ [s] ++ entryKey line).length =
        dirline.length + 1 + (entryKey line).length := by
      rw [List.length_append, List.length_append, List.length_singleton]
    rw [if_pos hentry, lineFits_of_isEntry hentry, hlen]
    by_cases hlong : 1024 ≤ dirline.length + 1 + (entryKey line).length
    · simp only [if_pos hlong, true_iff]
      rcases hlong.eq_or_lt with heq | hlt
      · exact Or.inr ⟨hentry, heq.symm⟩
      · exact Or.inl (Nat.not_le.2 hlt)
    · simp only [if_neg hlong, reduceCtorEq, false_iff]
      rintro (hout | ⟨-, heq⟩) <;> omega
  · simp [hentry, lineFits_of_neither hseen hentry]

/-- The lines of a text without terminator have none, either. -/
theorem zero_notMem_splitLines {text : List UInt8} (hline : 0 ∉ line) (htext : 0 ∉ text) :
    ∀ l ∈ splitLines line text, 0 ∉ l := by
  induction text generalizing line with
  | nil => simp [splitLines]
  | cons c rest ih =>
    obtain ⟨hc, hrest⟩ : 0 ≠ c ∧ 0 ∉ rest := by
      simpa [not_or] using htext
    rw [splitLines]
    split
    · split
      · exact ih List.not_mem_nil hrest
      · intro l hl
        rcases List.mem_cons.1 hl with rfl | hl
        · exact hline
        · exact ih List.not_mem_nil hrest l hl
    · exact ih (by simp [hline, hc]) hrest

end

/-! ## `buff` and `tmpname` -/

/-- A directory that `check_file_path` accepts. -/
def IsDirArg (path : CString) : Prop :=
  4 ≤ strlen path ∧ strlen path < 512 ∧ path.bytes.getLast?.any isSep = true

variable (W : World)

/-- `buff` as `opendir` is given it. -/
def openBuff (path : CString) : Option Block :=
  store (List.replicate 512 0) 0 (if W.windows then path.bytes else path.bytes.dropLast)

/-- `sprintf(buff, "%s/%s", path, ep->d_name)`. -/
def joinPath (path name : CString) (buff : Block) : Option Block :=
  store buff 0 (path.bytes ++ [sep W] ++ name.bytes ++ [0])

/-- One entry of the directory: `buff` is written, and `add_onefile` fills `tmpname` from it. -/
def joinEntry (behind : Nat → UInt8) (path : CString) (buff : Block) (name : CString) :
    Option Block := do
  let buff ← joinPath W path name buff
  let _ ← copyName (cstr buff) behind
  return buff

/-- The loop over the entries. -/
def fillBuff (behind : Nat → UInt8) (path : CString) (names : List CString) : Option Block :=
  (openBuff W path).bind fun buff => names.foldlM (joinEntry W behind path) buff

theorem openBuff_of_lt {path : CString} (h : strlen path < 512) :
    ∃ b, openBuff W path = some b ∧ b.length = 512 := by
  have hlen : (if W.windows then path.bytes else path.bytes.dropLast).length ≤ 512 := by
    split
    · exact h.le
    · rw [List.length_dropLast]
      exact (Nat.sub_le _ _).trans h.le
  refine ⟨_, store_zeros hlen, ?_⟩
  rw [List.length_append, List.length_replicate]
  omega

theorem sep_ne_zero : sep W ≠ 0 := by
  rw [sep]
  split <;> decide

theorem length_joined (path name : CString) :
    (path.bytes ++ [sep W] ++ name.bytes).length = strlen path + strlen name + 1 := by
  simp only [List.length_append, List.length_singleton, strlen]
  omega

theorem length_joined_nul (path name : CString) :
    (path.bytes ++ [sep W] ++ name.bytes ++ [0]).length = strlen path + strlen name + 2 := by
  rw [List.length_append, length_joined, List.length_singleton]

/-- A copy to `tmpname` is in range if it is of at most 512 bytes. -/
theorem memcpyName_of_le (mem : List UInt8) {b : Block} (c : Copy) (hb : b.length = 512)
    (hc : c.size ≤ 512) : ∃ b', memcpyName mem b c = some b' ∧ b'.length = 512 := by
  have hroom : 0 + (c.bytes mem).length ≤ b.length := by
    rw [Nat.zero_add, hb]
    exact (List.length_take_le _ _).trans hc
  exact ⟨_, store_of_le hroom, by rw [length_overwrite hroom, hb]⟩

/-- The copies to `tmpname` are in range for paths of up to 512 bytes. -/
theorem copyName_ne_none {path : CString} (behind : Nat → UInt8) (h : strlen path ≤ 512) :
    copyName path behind ≠ none := by
  obtain ⟨b, hcopies, hb⟩ : ∃ b : Block, (sepCopy path).toList.foldlM
      (memcpyName (pathMemory path behind)) (List.replicate 512 0) = some b ∧ b.length = 512 := by
    rw [sepCopy]
    cases scanBack path.bytes (strlen path) with
    | none => exact ⟨_, rfl, List.length_replicate⟩
    | some i =>
      obtain ⟨b, hcopy, hb⟩ := memcpyName_of_le (pathMemory path behind) ⟨i, strlen path - 1⟩
        (List.length_replicate (n := 512) (a := 0)) (show strlen path - 1 ≤ 512 by omega)
      refine ⟨b, ?_, hb⟩
      simp only [Option.map_some, Option.toList_some, List.foldlM_cons, List.foldlM_nil, hcopy,
        Option.bind_eq_bind, Option.bind_some, Option.pure_def]
  obtain ⟨b', hall, -⟩ := memcpyName_of_le (pathMemory path behind) ⟨0, strlen path⟩ hb h
  rw [copyName]
  simp only [hcopies, Option.bind_eq_bind, Option.bind_some, hall]
  split <;> simp

section

variable (behind : Nat → UInt8) {path name : CString} {buff : Block}

/-- A path leaves `buff` where the model of the loop over the entries stops. -/
theorem joinPath_eq_none_iff (hb : buff.length = 512) :
    joinPath W path name buff = none ↔ 512 ≤ (path.bytes ++ [sep W] ++ name.bytes).length := by
  rw [length_joined]
  by_cases hfits : strlen path + strlen name ≤ 510
  · rw [joinPath, store_of_le (by rw [length_joined_nul, hb]; omega)]
    exact iff_of_false (by simp) (by omega)
  · rw [joinPath, store_of_lt (by simp) (by rw [length_joined_nul, hb]; omega)]
    exact iff_of_true rfl (by omega)

/-- An entry whose path fits. -/
theorem joinEntry_of_le (hb : buff.length = 512) (hfits : strlen path + strlen name ≤ 510) :
    ∃ b, joinEntry W behind path buff name = some b ∧ b.length = 512 := by
  have hroom : 0 + (path.bytes ++ [sep W] ++ name.bytes ++ [0]).length ≤ buff.length := by
    rw [length_joined_nul, hb]
    omega
  have hnul : 0 ∉ path.bytes ++ [sep W] ++ name.bytes := by
    simp [path.nulFree, name.nulFree, (sep_ne_zero W).symm]
  have hbytes : (cstr (overwrite buff 0 (path.bytes ++ [sep W] ++ name.bytes ++ [0]))).bytes =
      path.bytes ++ [sep W] ++ name.bytes := by
    rw [overwrite, List.take_zero, List.nil_append, List.append_assoc _ [0]]
    exact bytes_cstr_terminated hnul _
  have hstrlen : strlen (cstr (overwrite buff 0
      (path.bytes ++ [sep W] ++ name.bytes ++ [0]))) ≤ 512 := by
    rw [strlen, hbytes, length_joined]
    omega
  obtain ⟨p, hp⟩ := Option.ne_none_iff_exists'.1 (copyName_ne_none behind hstrlen)
  refine ⟨_, ?_, (length_overwrite hroom).trans hb⟩
  rw [joinEntry, joinPath, store_of_le hroom]
  simp only [Option.bind_eq_bind, Option.bind_some, hp, Option.pure_def]

/-- An entry whose path does not. -/
theorem joinEntry_of_lt (hb : buff.length = 512) (hlong : 510 < strlen path + strlen name) :
    joinEntry W behind path buff name = none := by
  rw [joinEntry, joinPath, store_of_lt (by simp) (by rw [length_joined_nul, hb]; omega)]
  rfl

/-- **All entries.** -/
theorem joinEntries_iff (hb : buff.length = 512) (names : List CString) :
    names.foldlM (joinEntry W behind path) buff ≠ none ↔
      ∀ name ∈ names, strlen path + strlen name ≤ 510 := by
  induction names generalizing buff with
  | nil => simp
  | cons first rest ih =>
    rw [List.foldlM_cons, List.forall_mem_cons]
    by_cases hfits : strlen path + strlen first ≤ 510
    · obtain ⟨b, hjoin, hb'⟩ := joinEntry_of_le W behind hb hfits
      rw [hjoin]
      simpa [hfits] using ih hb'
    · rw [joinEntry_of_lt W behind hb (Nat.not_le.1 hfits)]
      exact iff_of_false (fun h => h rfl) fun h => hfits h.1

end

/-- **The buffers of paths.**  For every project text, and wherever the loop over its lines
ends, the copies to `dirline` and `rpath` are in range exactly if every line up to there has
the room that it needs; and for every directory that `check_file_path` accepts and every row of
entries, what is written to `buff` and `tmpname` is in range exactly if the directory and each
name have at most 510 bytes together. -/
theorem path_buffers_iff (W : World) :
    (∀ text n,
      fillLines (sep W) (List.replicate 512 0) ((splitLines [] (cstr text).bytes).take n) ≠ none ↔
        ∀ i < n, ∀ line, (splitLines [] (cstr text).bytes)[i]? = some line →
          LineFits (dirlineAfter [] ((splitLines [] (cstr text).bytes).take i)) line) ∧
    ∀ path names behind, IsDirArg path →
      (fillBuff W behind path names ≠ none ↔
        ∀ name ∈ names, strlen path + strlen name ≤ 510) := by
  constructor
  · intro text n
    have hnul : ∀ line ∈ (splitLines [] (cstr text).bytes).take n, 0 ∉ line := fun line hl =>
      zero_notMem_splitLines List.not_mem_nil (cstr text).nulFree line (List.mem_of_mem_take hl)
    rw [fillLines_iff holdsStr_empty List.length_replicate (sep_ne_zero W) hnul]
    constructor
    · intro hall i hi line hline
      have hfits := hall i line (by rw [List.getElem?_take_of_lt hi, hline])
      rwa [List.take_take, Nat.min_eq_left hi.le] at hfits
    · intro hall i line hline
      obtain ⟨hi, hline'⟩ : i < n ∧ (splitLines [] (cstr text).bytes)[i]? = some line := by
        simpa [List.getElem?_take] using hline
      rw [List.take_take, Nat.min_eq_left hi.le]
      exact hall i hi line hline'
  · rintro path names behind ⟨-, hlt, -⟩
    obtain ⟨b, hopen, hb⟩ := openBuff_of_lt W hlt
    rw [fillBuff, hopen, Option.bind_some]
    exact joinEntries_iff W behind hb names

/-- A project of one section with two entries. -/
def shortProject : List UInt8 := ascii "[/scripts]\nmain.lua = 1\nb.lua = 1\n"

/-- A short project, and a short directory with two entries. -/
theorem path_buffers_short :
    (splitLines [] (cstr shortProject).bytes =
        [ascii "[/scripts]", ascii "main.lua = 1", ascii "b.lua = 1"] ∧
      fillLines (sep World.bare) (List.replicate 512 0)
        ((splitLines [] (cstr shortProject).bytes).take 3) ≠ none) ∧
    IsDirArg (cstr (ascii "/scripts/")) ∧
      fillBuff World.bare (fun _ => 0xFF) (cstr (ascii "/scripts/"))
        [cstr (ascii "main.lua"), cstr (ascii "b.lua")] ≠ none := by
  have hlines : splitLines [] (cstr shortProject).bytes =
      [ascii "[/scripts]", ascii "main.lua = 1", ascii "b.lua = 1"] := by decide +kernel
  have hdir : IsDirArg (cstr (ascii "/scripts/")) := ⟨by decide, by decide, by decide⟩
  refine ⟨⟨hlines, ?_⟩, hdir, ?_⟩
  · refine ((path_buffers_iff World.bare).1 shortProject 3).2 ?_
    intro i hi line hline
    rw [hlines] at hline ⊢
    interval_cases i <;> cases hline <;> exact ⟨by decide +kernel, by decide +kernel⟩
  · refine ((path_buffers_iff World.bare).2 _ _ _ hdir).2 ?_
    intro name hname
    rcases List.mem_pair.1 hname with rfl | rfl <;> decide

/-- A project whose only line is the header of a directory of 512 bytes. -/
def longHeader : List UInt8 := 0x5B :: List.replicate 512 0x61 ++ [0x5D]

/-- A directory with a path of 300 bytes, and a name of 255. -/
def longDir : CString := cstr (List.replicate 299 0x61 ++ [0x2F])

def longName : CString := cstr (List.replicate 255 0x61)

/-- **The buffers are left**: by the terminator behind a directory of 512 bytes, and by the path
of a file whose name has 255 bytes, in a directory whose path has 300. -/
theorem path_buffers_left :
    (splitLines [] (cstr (longHeader ++ [0x0A])).bytes = [longHeader] ∧
      fillLines (sep World.bare) (List.replicate 512 0) [longHeader] = none) ∧
    IsDirArg longDir ∧ strlen longName = 255 ∧
    ∀ behind, fillBuff World.bare behind longDir [longName] = none := by
  refine ⟨⟨by decide +kernel, ?_⟩, ⟨by decide +kernel, by decide +kernel, by decide +kernel⟩,
    by decide +kernel, fun behind => ?_⟩
  · have hseen : Seen longHeader := by decide +kernel
    have hlong : 512 ≤ (headerDir longHeader).length := by decide +kernel
    rw [fillLines, fillLine_eq holdsStr_empty, if_pos hseen,
      copyDirline_of_le List.length_replicate hseen hlong]
    rfl
  obtain ⟨b, hopen, hb⟩ := openBuff_of_lt World.bare (show strlen longDir < 512 by decide +kernel)
  rw [fillBuff, hopen, Option.bind_some, List.foldlM_cons,
    joinEntry_of_lt World.bare behind hb (by decide +kernel)]
  rfl

end LuatosPc.Cmd
