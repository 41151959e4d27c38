import LuatosPc.Cmd.Files

/-!
# Project files of LuaTools

What `luat_cmd_load_luatools` asks `check_file_path` for.  A project file consists of sections:
a header line with a directory in brackets, and entry lines with the names of the files.

* `splitLines` — the lines that the loop looks at; `lineAction` — what it does at a line.
* `actions`, `runActions` — all that it does for a text; `luatCmdLoadLuatools_eq` — that is what
  the function of the source does.
* `traceActions`, `loadTrace` — the calls of `check_file_path` that it makes, and what it returns;
  `loadTrace_snd` — the latter is what the function of the source returns.
* `IsHeader`, `headerDir`, `entryKey` — the parts of a project file; `nearestHeader` — the
  section of a line; `AsksAt`, `CallsAt` — what a line asks for, and the calls of a load.
* `luatools_sections_iff` — files are taken from their own section exactly if the loop has seen
  the header of each section that it takes a file from: it overlooks `[info]` and headers of up
  to five bytes.
-/

namespace LuatosPc.Cmd

open LuatosPc.Bytes LuatosPc.Luadb

/-- A line begins with `[` and ends with `]`. -/
def IsHeader (line : List UInt8) : Prop := line.head? = some 0x5B ∧ line.getLast? = some 0x5D

instance : DecidablePred IsHeader := fun _ => inferInstanceAs (Decidable (_ ∧ _))

/-- What stands between the brackets. -/
def headerDir (line : List UInt8) : List UInt8 := (line.drop 1).take (line.length - 2)

/-- What stands before the first ` ` or `=`. -/
def entryKey (line : List UInt8) : List UInt8 := line.takeWhile fun c => c ≠ 0x20 && c ≠ 0x3D

/-- The lines that are ended and not empty, for the bytes of the first line read so far. -/
def splitLines (line : List UInt8) : List UInt8 → List (List UInt8)
  | [] => []
  | c :: rest =>
    if c = 0x0D ∨ c = 0x0A then
      if line = [] then splitLines [] rest else line :: splitLines [] rest
    else splitLines (line ++ [c]) rest

/-- What the loop does at a line. -/
inductive LineAction
  | skip
  /-- A header becomes `dirline`. -/
  | enter
  /-- A copy leaves `dirline` or `rpath`. -/
  | overflow
  | check (path : List UInt8)
  deriving DecidableEq, Repr

/-- The path that a line of a project asks for. -/
def LineAction.path? : LineAction → Option (List UInt8)
  | .check path => some path
  | _ => none

/-- The action at a line, for the separator of paths and the value of `dirline`. -/
def lineAction (sep : UInt8) (dirline line : List UInt8) : LineAction :=
  if line = ascii "[info]" ∨ line.length ≤ 5 then .skip
  else if IsHeader line then
    if 512 ≤ (headerDir line).length then .overflow else .enter
  else if dirline = [] then .skip
  else if (entryKey line).length = line.length then .skip
  else if 1024 ≤ (dirline ++ [sep] ++ entryKey line).length then .overflow
  else .check (dirline ++ [sep] ++ entryKey line)

/-- `dirline` after a line. -/
def nextDirline (dirline line : List UInt8) : LineAction → List UInt8
  | .enter => headerDir line
  | _ => dirline

/-- All that the loop does, up to the first overflow. -/
def actions (sep : UInt8) (dirline : List UInt8) : List (List UInt8) → List LineAction
  | [] => []
  | line :: rest =>
    let a := lineAction sep dirline line
    a :: if a = .overflow then [] else actions sep (nextDirline dirline line a) rest

variable (W : World)

/-- The actions, one after the other, until a file cannot be loaded. -/
def runActions : List LineAction → C Int
  | [] => return 0
  | .check path :: rest => do
    if ← checkFilePath W path then runActions rest else return -2
  | .overflow :: _ => throw .crash
  | _ :: rest => runActions rest

/-! ## The loop makes these calls -/

/-- The action at a line: `dirline` for the next one, or nothing if a file could not be loaded. -/
def performLine (dirline line : List UInt8) : LineAction → C (Option (List UInt8))
  | .skip => return some dirline
  | .enter => return some (headerDir line)
  | .overflow => throw .crash
  | .check path => do if ← checkFilePath W path then return some dirline else return none

/-- One line. -/
theorem lltLine_eq (dirline line : List UInt8) :
    lltLine W dirline line = performLine W dirline line (lineAction (sep W) dirline line) := by
  simp only [lineAction, apply_ite (performLine W dirline line)]
  rfl

/-- **The loop** looks at one line after the other. -/
theorem lltLoop_eq {text : List UInt8} (hnul : 0 ∉ text) (dirline line : List UInt8) :
    lltLoop W dirline line text =
      runActions W (actions (sep W) dirline (splitLines line text)) := by
  induction text generalizing dirline line with
  | nil => rfl
  | cons c rest ih =>
    obtain ⟨hc, hrest⟩ : c ≠ 0 ∧ 0 ∉ rest := by
      simpa [eq_comm, not_or] using hnul
    rw [lltLoop, splitLines, if_neg hc]
    by_cases hbreak : c = 0x0D ∨ c = 0x0A
    · rw [if_pos hbreak, if_pos hbreak]
      by_cases hline : line = []
      · rw [if_pos hline, if_pos hline]
        exact ih hrest dirline []
      · rw [if_neg hline, if_neg hline, lltLine_eq, actions]
        cases lineAction (sep W) dirline line with
        | skip => exact ih hrest dirline []
        | enter => exact ih hrest (headerDir line) []
        | overflow => rfl
        | check path =>
          simp only [performLine, runActions, bind_assoc]
          refine bind_congr ?_
          intro found
          cases found with
          | false => rfl
          | true => exact ih hrest dirline []
    · rw [if_neg hbreak, if_neg hbreak]
      exact ih hrest dirline (line ++ [c])

/-- **What the function of the source does** with a project file. -/
theorem luatCmdLoadLuatools_eq {path text : List UInt8} (hfile : W.file path = some text)
    (hnul : 0 ∉ text) {σ : Globals} {junk : Nat → UInt8} (hheap : W.heap σ.asked = some junk) :
    luatCmdLoadLuatools W path σ =
      runActions W (actions (sep W) [] (splitLines [] text)) { σ with asked := σ.asked + 1 } := by
  rw [luatCmdLoadLuatools, hfile, ← lltLoop_eq W hnul]
  exact (yields_malloc W hheap).bind_eq _

/-! ## The calls of a load -/

/-- The paths on which `check_file_path` is called, and what comes of it. -/
abbrev Trace := List (List UInt8) × Except Stop (Int × Globals)

/-- The calls that the actions make. -/
def traceActions : List LineAction → Globals → Trace
  | [], σ => ([], .ok (0, σ))
  | .check path :: rest, σ =>
    match checkFilePath W path σ with
    | .ok (true, σ') => (path :: (traceActions rest σ').1, (traceActions rest σ').2)
    | .ok (false, σ') => ([path], .ok (-2, σ'))
    | .error e => ([path], .error e)
  | .overflow :: _, _ => ([], .error .crash)
  | .skip :: rest, σ => traceActions rest σ
  | .enter :: rest, σ => traceActions rest σ

/-- The calls that `luat_cmd_load_luatools` makes. -/
def loadTrace (path : List UInt8) (σ : Globals) : Trace :=
  match W.file path with
  | none => ([], .ok (-1, σ))
  | some text =>
    match W.heap σ.asked with
    | none => ([], .ok (-1, { σ with asked := σ.asked + 1 }))
    | some _ =>
      traceActions W (actions (sep W) [] (splitLines [] text)) { σ with asked := σ.asked + 1 }

theorem traceActions_snd (acts : List LineAction) (σ : Globals) :
    (traceActions W acts σ).2 = runActions W acts σ := by
  induction acts generalizing σ with
  | nil => rfl
  | cons a rest ih =>
    cases a with
    | skip => exact ih σ
    | enter => exact ih σ
    | overflow => rfl
    | check path =>
      show _ = (checkFilePath W path σ >>= fun p =>
        (if p.1 then runActions W rest else return -2) p.2)
      rw [traceActions]
      split
      · rename_i σ' hcheck
        rw [hcheck]
        exact ih σ'
      · rename_i σ' hcheck
        rw [hcheck]
        rfl
      · rename_i e hcheck
        rw [hcheck]
        rfl

/-- **What a load returns** is what the function of the source returns. -/
theorem loadTrace_snd {path text : List UInt8} (hfile : W.file path = some text)
    (hnul : 0 ∉ text) (σ : Globals) :
    (loadTrace W path σ).2 = luatCmdLoadLuatools W path σ := by
  cases hheap : W.heap σ.asked with
  | none =>
    rw [luatCmdLoadLuatools, hfile]
    simp only [loadTrace, hfile, hheap, (yields_malloc W hheap).bind_eq]
    rfl
  | some junk =>
    rw [luatCmdLoadLuatools_eq W hfile hnul hheap, ← traceActions_snd]
    simp only [loadTrace, hfile, hheap]

theorem filterMap_check_cons (path : List UInt8) (rest : List LineAction) :
    (LineAction.check path :: rest).filterMap LineAction.path? =
      path :: rest.filterMap LineAction.path? := rfl

/-- The calls are the first ones of those that the lines ask for. -/
theorem traceActions_prefix (acts : List LineAction) (σ : Globals) :
    (traceActions W acts σ).1 <+: acts.filterMap LineAction.path? := by
  induction acts generalizing σ with
  | nil => exact List.prefix_rfl
  | cons a rest ih =>
    cases a with
    | skip => exact ih σ
    | enter => exact ih σ
    | overflow => exact List.nil_prefix
    | check path =>
      rw [traceActions, filterMap_check_cons]
      split
      · rw [List.cons_prefix_cons]
        exact ⟨rfl, ih _⟩
      · exact List.cons_prefix_cons.2 ⟨rfl, List.nil_prefix⟩
      · exact List.cons_prefix_cons.2 ⟨rfl, List.nil_prefix⟩

theorem loadTrace_prefix {path text : List UInt8} (hfile : W.file path = some text) (σ : Globals) :
    (loadTrace W path σ).1 <+:
      (actions (sep W) [] (splitLines [] text)).filterMap LineAction.path? := by
  cases hheap : W.heap σ.asked with
  | none =>
    simp only [loadTrace, hfile, hheap]
    exact List.nil_prefix
  | some junk =>
    simp only [loadTrace, hfile, hheap]
    exact traceActions_prefix W _ _

/-- A call is a call, whatever comes of it. -/
theorem traceActions_check_head? (path : List UInt8) (rest : List LineAction) (σ : Globals) :
    (traceActions W (.check path :: rest) σ).1.head? = some path := by
  rw [traceActions]
  split <;> rfl

/-! ## The directory at a line -/

/-- The header is one that the loop does not overlook. -/
def Seen (line : List UInt8) : Prop := IsHeader line ∧ line ≠ ascii "[info]" ∧ 5 < line.length

instance : DecidablePred Seen := fun _ => inferInstanceAs (Decidable (_ ∧ _ ∧ _))

/-- The last header among these lines. -/
def nearestHeader (before : List (List UInt8)) : Option (List UInt8) :=
  (before.filter fun line => IsHeader line).getLast?

/-- The last header among these lines that the loop does not overlook. -/
def nearestSeen (before : List (List UInt8)) : Option (List UInt8) :=
  (before.filter fun line => Seen line).getLast?

/-- `dirline` after these lines, if it was `dirline` before. -/
def dirlineAfter (dirline : List UInt8) (before : List (List UInt8)) : List UInt8 :=
  (nearestSeen before).elim dirline headerDir

variable {s : UInt8} {dirline line p : List UInt8}

/-- **What the loop can do at a line.** -/
theorem lineAction_cases (s : UInt8) (dirline line : List UInt8) :
    lineAction s dirline line = .skip ∧ ¬ Seen line ∨
    lineAction s dirline line = .enter ∧ Seen line ∨
    lineAction s dirline line = .overflow ∨
    lineAction s dirline line = .check (dirline ++ [s] ++ entryKey line) ∧ ¬ IsHeader line ∧
      dirline ≠ [] ∧ (entryKey line).length ≠ line.length := by
  unfold lineAction
  by_cases hskip : line = ascii "[info]" ∨ line.length ≤ 5
  · left
    refine ⟨if_pos hskip, ?_⟩
    rintro ⟨-, hinfo, hlong⟩
    rcases hskip with hskip | hskip
    · exact hinfo hskip
    · omega
  rw [if_neg hskip]
  obtain ⟨hinfo, hlong⟩ := not_or.1 hskip
  by_cases hheader : IsHeader line
  · rw [if_pos hheader]
    by_cases hdir : 512 ≤ (headerDir line).length
    · exact .inr (.inr (.inl (if_pos hdir)))
    · exact .inr (.inl ⟨if_neg hdir, hheader, hinfo, by omega⟩)
  have hunseen : ¬ Seen line := fun hseen => hheader hseen.1
  rw [if_neg hheader]
  by_cases hnone : dirline = []
  · exact .inl ⟨if_pos hnone, hunseen⟩
  rw [if_neg hnone]
  by_cases hkey : (entryKey line).length = line.length
  · exact .inl ⟨if_pos hkey, hunseen⟩
  rw [if_neg hkey]
  by_cases hpath : 1024 ≤ (dirline ++ [s] ++ entryKey line).length
  · exact .inr (.inr (.inl (if_pos hpath)))
  · exact .inr (.inr (.inr ⟨if_neg hpath, hheader, hnone, hkey⟩))

/-- A line sets `dirline` if it is a header that the loop does not overlook. -/
theorem nextDirline_eq (h : lineAction s dirline line ≠ .overflow) :
    nextDirline dirline line (lineAction s dirline line) =
      if Seen line then headerDir line else dirline := by
  obtain ⟨ha, hseen⟩ | ⟨ha, hseen⟩ | ha | ⟨ha, hheader, -⟩ := lineAction_cases s dirline line
  · rw [ha, if_neg hseen]
    rfl
  · rw [ha, if_pos hseen]
    rfl
  · exact absurd ha h
  · rw [ha, if_neg fun hseen => hheader hseen.1]
    rfl

/-- When a file is asked for. -/
theorem lineAction_eq_check (h : lineAction s dirline line = .check p) :
    ¬ IsHeader line ∧ dirline ≠ [] ∧ (entryKey line).length ≠ line.length ∧
      p = dirline ++ [s] ++ entryKey line := by
  obtain ⟨ha, -⟩ | ⟨ha, -⟩ | ha | ⟨ha, hheader, hdir, hkey⟩ := lineAction_cases s dirline line
  · simp [ha] at h
  · simp [ha] at h
  · simp [ha] at h
  · rw [ha] at h
    cases h
    exact ⟨hheader, hdir, hkey, rfl⟩

theorem dirlineAfter_cons (before : List (List UInt8)) :
    dirlineAfter dirline (line :: before) =
      dirlineAfter (if Seen line then headerDir line else dirline) before := by
  unfold dirlineAfter nearestSeen
  by_cases hseen : Seen line
  · rw [if_pos hseen, List.filter_cons_of_pos (by simpa using hseen), List.getLast?_cons]
    cases (before.filter fun line => Seen line).getLast? <;> rfl
  · rw [if_neg hseen, List.filter_cons_of_neg (by simpa using hseen)]

/-- **The action at a line** goes by the last header seen before it. -/
theorem actions_getElem? {lines : List (List UInt8)} {i : Nat} {a : LineAction}
    (h : (actions s dirline lines)[i]? = some a) :
    ∃ line, lines[i]? = some line ∧ a = lineAction s (dirlineAfter dirline (lines.take i)) line := by
  induction lines generalizing dirline i with
  | nil => simp [actions] at h
  | cons line rest ih =>
    rw [actions] at h
    cases i with
    | zero =>
      cases h
      exact ⟨line, rfl, rfl⟩
    | succ i =>
      rw [List.getElem?_cons_succ] at h
      split at h
      · simp at h
      · rename_i hfits
        obtain ⟨entry, hentry, rfl⟩ := ih h
        refine ⟨entry, hentry, ?_⟩
        rw [List.take_succ_cons, dirlineAfter_cons, nextDirline_eq hfits]

/-! ## Sections -/

/-- A header that the loop does not overlook has a directory of at least four bytes. -/
theorem Seen.four_le {header : List UInt8} (h : Seen header) : 4 ≤ (headerDir header).length := by
  have hlong := h.2.2
  simp only [headerDir, List.length_take, List.length_drop]
  omega

/-- If the last header is not overlooked, it is the last that is not. -/
theorem nearestSeen_of_seen {before : List (List UInt8)} {header : List UInt8}
    (h : nearestHeader before = some header) (hseen : Seen header) :
    nearestSeen before = some header := by
  obtain ⟨init, hinit⟩ := List.getLast?_eq_some_iff.1 h
  have hfilter : before.filter (fun line => Seen line) =
      (before.filter fun line => IsHeader line).filter fun line => Seen line := by
    rw [List.filter_filter]
    refine List.filter_congr ?_
    intro line _
    simpa using fun hline : Seen line => hline.1
  rw [nearestSeen, hfilter, hinit, List.filter_append, List.filter_singleton]
  simp [hseen]

/-- Line `i` asks for a call of `check_file_path` on `p`. -/
def AsksAt (s : UInt8) (lines : List (List UInt8)) (i : Nat) (p : List UInt8) : Prop :=
  (actions s [] lines)[i]? = some (.check p)

/-- At line `i`, `check_file_path` is called on `p`: it is the line's turn among the calls of the
load. -/
def CallsAt (W : World) (path text : List UInt8) (σ : Globals) (i : Nat) (p : List UInt8) : Prop :=
  AsksAt (sep W) (splitLines [] text) i p ∧
    (loadTrace W path σ).1[(((actions (sep W) [] (splitLines [] text)).take i).filterMap
      LineAction.path?).length]? = some p

/-- Line `i` is an entry, and `p` is the file of its key in the directory of its section, which
is not `[info]`. -/
def OwnSection (s : UInt8) (lines : List (List UInt8)) (i : Nat) (p : List UInt8) : Prop :=
  ∃ header entry, nearestHeader (lines.take i) = some header ∧ header ≠ ascii "[info]" ∧
    lines[i]? = some entry ∧ ¬ IsHeader entry ∧ (∃ c ∈ entry, c = 0x20 ∨ c = 0x3D) ∧
    p = headerDir header ++ [s] ++ entryKey entry

/-- What a call is made on: the directory of the last header that was not overlooked. -/
theorem AsksAt.spec {lines : List (List UInt8)} {i : Nat} (h : AsksAt s lines i p) :
    ∃ seen entry, nearestSeen (lines.take i) = some seen ∧ Seen seen ∧ lines[i]? = some entry ∧
      ¬ IsHeader entry ∧ (∃ c ∈ entry, c = 0x20 ∨ c = 0x3D) ∧
      p = headerDir seen ++ [s] ++ entryKey entry := by
  obtain ⟨entry, hentry, ha⟩ := actions_getElem? h
  obtain ⟨hheader, hdir, hkey, rfl⟩ := lineAction_eq_check ha.symm
  have hends : ∃ c ∈ entry, c = 0x20 ∨ c = 0x3D := by
    by_contra hno
    refine hkey (congrArg List.length (List.takeWhile_eq_self_iff.2 ?_))
    intro c hc
    simpa using fun hbad => hno ⟨c, hc, hbad⟩
  cases hseen : nearestSeen (lines.take i) with
  | none =>
    rw [dirlineAfter, hseen] at hdir
    exact absurd rfl hdir
  | some seen =>
    have hmem := (List.mem_filter.1 (List.mem_of_getLast? hseen)).2
    refine ⟨seen, entry, rfl, of_decide_eq_true hmem, hentry, hheader, hends, ?_⟩
    rw [dirlineAfter, hseen]
    rfl

/-- **A call is made on a file of its own section** exactly if the header of the section was not
overlooked. -/
theorem AsksAt.ownSection_iff {lines : List (List UInt8)} {i : Nat} (h : AsksAt s lines i p) :
    OwnSection s lines i p ↔ ∃ header, nearestHeader (lines.take i) = some header ∧ Seen header := by
  obtain ⟨seen, entry, hnearest, hseen, hentry, hheader, hends, rfl⟩ := h.spec
  constructor
  · rintro ⟨header, entry', hlast, hinfo, hentry', -, -, hpath⟩
    obtain rfl : entry = entry' := Option.some.inj (hentry.symm.trans hentry')
    have hdir : headerDir seen = headerDir header :=
      List.append_cancel_right (List.append_cancel_right hpath)
    -- the directory of a header of up to five bytes is shorter than that of any that is seen
    have hlong : 4 ≤ (headerDir header).length := hdir ▸ hseen.four_le
    have hmem := (List.mem_filter.1 (List.mem_of_getLast? hlast)).2
    refine ⟨header, hlast, of_decide_eq_true hmem, hinfo, ?_⟩
    simp only [headerDir, List.length_take, List.length_drop] at hlong
    omega
  · rintro ⟨header, hlast, hheaderSeen⟩
    obtain rfl : seen = header :=
      Option.some.inj (hnearest.symm.trans (nearestSeen_of_seen hlast hheaderSeen))
    exact ⟨seen, entry, hlast, hseen.2.1, hentry, hheader, hends, rfl⟩

/-- A call among those that the lines ask for is asked for at a line. -/
theorem exists_asksAt {acts : List LineAction} {j : Nat}
    (h : (acts.filterMap LineAction.path?)[j]? = some p) :
    ∃ i, acts[i]? = some (.check p) ∧ ((acts.take i).filterMap LineAction.path?).length = j := by
  induction acts generalizing j with
  | nil => simp at h
  | cons a rest ih =>
    have hpass : a.path? = none → ∃ i, (a :: rest)[i]? = some (.check p) ∧
        (((a :: rest).take i).filterMap LineAction.path?).length = j := by
      intro hnone
      rw [List.filterMap_cons_none hnone] at h
      obtain ⟨i, hi, hcount⟩ := ih h
      refine ⟨i + 1, hi, ?_⟩
      rw [List.take_succ_cons, List.filterMap_cons_none hnone, hcount]
    cases a with
    | skip => exact hpass rfl
    | enter => exact hpass rfl
    | overflow => exact hpass rfl
    | check path =>
      rw [filterMap_check_cons] at h
      cases j with
      | zero =>
        cases h
        exact ⟨0, rfl, rfl⟩
      | succ j =>
        obtain ⟨i, hi, hcount⟩ := ih h
        refine ⟨i + 1, hi, ?_⟩
        rw [List.take_succ_cons, filterMap_check_cons, List.length_cons, hcount]

/-- **Every call of a load is made at a line.** -/
theorem exists_callsAt {path text : List UInt8} (hfile : W.file path = some text) {σ : Globals}
    (h : p ∈ (loadTrace W path σ).1) : ∃ i, CallsAt W path text σ i p := by
  obtain ⟨j, hj⟩ := List.mem_iff_getElem?.1 h
  obtain ⟨more, hmore⟩ := loadTrace_prefix W hfile σ
  have hlt : j < (loadTrace W path σ).1.length := (List.getElem?_eq_some_iff.1 hj).1
  have hasked : ((actions (sep W) [] (splitLines [] text)).filterMap LineAction.path?)[j]? =
      some p := by
    rw [← hmore, List.getElem?_append_left hlt]
    exact hj
  obtain ⟨i, hi, hcount⟩ := exists_asksAt hasked
  exact ⟨i, hi, by rw [hcount]; exact hj⟩

/-- **Entries belong to their own section.**  The function calls `check_file_path` for the lines
of the project file in order, until a file cannot be loaded, and every call is made at a line.
Each call is on a file of the section of its line, exactly if for no call the header of that
section was overlooked; and the same is true of all the calls that the lines ask for, those
behind a file that cannot be loaded included. -/
theorem luatools_sections_iff (W : World) (path text : List UInt8)
    (hfile : W.file path = some text) (hnul : 0 ∉ text) :
    (∀ σ junk, W.heap σ.asked = some junk →
      luatCmdLoadLuatools W path σ =
        runActions W (actions (sep W) [] (splitLines [] text)) { σ with asked := σ.asked + 1 }) ∧
    (∀ σ, (loadTrace W path σ).2 = luatCmdLoadLuatools W path σ ∧
      (∀ p ∈ (loadTrace W path σ).1, ∃ i, CallsAt W path text σ i p) ∧
      ((∀ i p, CallsAt W path text σ i p → OwnSection (sep W) (splitLines [] text) i p) ↔
        ∀ i p, CallsAt W path text σ i p →
          ∃ header, nearestHeader ((splitLines [] text).take i) = some header ∧ Seen header)) ∧
    ((∀ i p, AsksAt (sep W) (splitLines [] text) i p →
        OwnSection (sep W) (splitLines [] text) i p) ↔
      ∀ i p, AsksAt (sep W) (splitLines [] text) i p →
        ∃ header, nearestHeader ((splitLines [] text).take i) = some header ∧ Seen header) := by
  refine ⟨fun σ junk hheap => luatCmdLoadLuatools_eq W hfile hnul hheap, fun σ => ?_, ?_⟩
  · refine ⟨loadTrace_snd W hfile hnul σ, fun p hp => exists_callsAt W hfile hp, ?_⟩
    constructor
    · intro h i p hcall
      exact hcall.1.ownSection_iff.1 (h i p hcall)
    · intro h i p hcall
      exact hcall.1.ownSection_iff.2 (h i p hcall)
  · constructor
    · intro h i p hask
      exact hask.ownSection_iff.1 (h i p hask)
    · intro h i p hask
      exact hask.ownSection_iff.2 (h i p hask)

/-- A project with two sections. -/
def twoSections : List UInt8 := ascii "[path1]\nmain.bin = 1\n[path2]\nmore.bin = 2\n"

/-- A project with a section whose header has five bytes. -/
def shortHeader : List UInt8 := ascii "[path1]\n[abc]\nmain.lua = 1\n"

/-- A project with an entry under `[info]`. -/
def infoHeader : List UInt8 := ascii "[path1]\n[info]\nmain.lua = 1\n"

/-- A world in which every file is this project file. -/
def projectWorld (text : List UInt8) : World := { World.bare with file := fun _ => some text }

/-- Both files are asked for, each in its own section. -/
theorem luatools_sections_iff_two :
    (loadTrace (projectWorld twoSections) (ascii "a.ini") emptyImage).1 =
      [ascii "path1/main.bin", ascii "path2/more.bin"] ∧
    ∀ i p, CallsAt (projectWorld twoSections) (ascii "a.ini") twoSections emptyImage i p →
      OwnSection 0x2F (splitLines [] twoSections) i p := by
  have hactions : actions 0x2F [] (splitLines [] twoSections) =
      [.enter, .check (ascii "path1/main.bin"), .enter, .check (ascii "path2/more.bin")] := by
    decide +kernel
  refine ⟨by decide +kernel, ?_⟩
  refine ((luatools_sections_iff (projectWorld twoSections) (ascii "a.ini") twoSections rfl
    (by decide +kernel)).2.1 emptyImage).2.2.2 ?_
  rintro i p ⟨hask, -⟩
  rw [AsksAt, show sep (projectWorld twoSections) = 0x2F from rfl, hactions] at hask
  obtain rfl | rfl : i = 1 ∨ i = 3 := by
    rcases i with _ | _ | _ | _ | i
    · cases hask
    · exact .inl rfl
    · cases hask
    · exact .inr rfl
    · cases hask
  · exact ⟨ascii "[path1]", by decide +kernel, by decide +kernel⟩
  · exact ⟨ascii "[path2]", by decide +kernel, by decide +kernel⟩

/-- The file of the last section is looked for in the first. -/
def WrongSection (text : List UInt8) : Prop :=
  0 ∉ text ∧
    (∀ σ, luatCmdLoadLuatools (projectWorld text) (ascii "a.ini") σ =
      runActions (projectWorld text) [.enter, .skip, .check (ascii "path1/main.lua")]
        { σ with asked := σ.asked + 1 }) ∧
    (∀ σ, CallsAt (projectWorld text) (ascii "a.ini") text σ 2 (ascii "path1/main.lua")) ∧
    ¬ OwnSection 0x2F (splitLines [] text) 2 (ascii "path1/main.lua")

theorem wrongSection_of {text : List UInt8} (header : List UInt8) (hnul : 0 ∉ text)
    (ha : actions 0x2F [] (splitLines [] text) =
      [.enter, .skip, .check (ascii "path1/main.lua")])
    (hheader : nearestHeader ((splitLines [] text).take 2) = some header)
    (hunseen : ¬ Seen header) : WrongSection text := by
  have hsep : sep (projectWorld text) = 0x2F := rfl
  have hask : AsksAt 0x2F (splitLines [] text) 2 (ascii "path1/main.lua") := by
    rw [AsksAt, ha]
    rfl
  refine ⟨hnul, ?_, ?_, ?_⟩
  · intro σ
    rw [← ha]
    exact luatCmdLoadLuatools_eq (projectWorld text) rfl hnul rfl
  · intro σ
    refine ⟨hask, ?_⟩
    -- it is the first call
    have hload : loadTrace (projectWorld text) (ascii "a.ini") σ =
        traceActions (projectWorld text) [.check (ascii "path1/main.lua")]
          { σ with asked := σ.asked + 1 } := by
      show traceActions (projectWorld text) (actions 0x2F [] (splitLines [] text)) _ = _
      rw [ha]
      rfl
    rw [hload, hsep, ha]
    show (traceActions _ _ _).1[0]? = _
    rw [← List.head?_eq_getElem?]
    exact traceActions_check_head? ..
  · intro hown
    obtain ⟨header', hheader', hseen⟩ := hask.ownSection_iff.1 hown
    obtain rfl : header = header' := Option.some.inj (hheader.symm.trans hheader')
    exact hunseen hseen

/-- **Headers that are overlooked**: behind `[path1]`, the files of the sections `[abc]` and
`[info]` are looked for in `path1`. -/
theorem luatools_wrong_section : WrongSection shortHeader ∧ WrongSection infoHeader := by
  constructor
  · exact wrongSection_of (ascii "[abc]") (by decide +kernel) (by decide +kernel)
      (by decide +kernel) (by decide +kernel)
  · exact wrongSection_of (ascii "[info]") (by decide +kernel) (by decide +kernel)
      (by decide +kernel) (by decide +kernel)

end LuatosPc.Cmd
