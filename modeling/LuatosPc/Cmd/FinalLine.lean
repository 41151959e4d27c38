import LuatosPc.Cmd.LuaTools

/-!
# The last line of a project file

The loop of `luat_cmd_load_luatools` looks at a line when it comes to the line break behind
it.  What stands behind the last line break is never looked at.

* `lastLine` — what stands behind the last line break; `splitLines_append_end` — it becomes a
  line with a line break behind it.
* `traceActions_append` — the loop goes on with a further line if it has come to the end of
  those before it; `AllFound`, `traceActions_ends_iff` — when it does.
* `Ends` — the loop comes to the end of a text: there is memory for it, its lines fit, and all
  files that they ask for are found.
* `final_break_iff` — a project file loads the same with or without a final line break
  exactly if nothing is done at its last line, or the loop does not come to it.
-/

namespace LuatosPc.Cmd

open LuatosPc.Bytes LuatosPc.Luadb

variable (W : World)

/-- **A further line** is looked at if the loop has come to the end of those before it. -/
theorem traceActions_append (acts more : List LineAction) (σ : Globals) :
    (∃ σ', (traceActions W acts σ).2 = .ok (0, σ') ∧
      traceActions W (acts ++ more) σ =
        ((traceActions W acts σ).1 ++ (traceActions W more σ').1, (traceActions W more σ').2)) ∨
    (∀ σ', (traceActions W acts σ).2 ≠ .ok (0, σ')) ∧
      traceActions W (acts ++ more) σ = traceActions W acts σ := by
  induction acts generalizing σ with
  | nil => exact Or.inl ⟨σ, rfl, rfl⟩
  | cons a rest ih =>
    cases a with
    | skip => exact ih σ
    | enter => exact ih σ
    | overflow => exact Or.inr ⟨by simp [traceActions], rfl⟩
    | check path =>
      rw [List.cons_append, traceActions, traceActions]
      cases hcheck : checkFilePath W path σ with
      | error e => exact Or.inr ⟨by simp, rfl⟩
      | ok p =>
        obtain ⟨_ | _, σ₁⟩ := p
        · exact Or.inr ⟨by simp, rfl⟩
        · rcases ih σ₁ with ⟨σ', hend, happ⟩ | ⟨hstop, happ⟩
          · refine Or.inl ⟨σ', hend, ?_⟩
            simp [happ]
          · refine Or.inr ⟨hstop, ?_⟩
            simp [happ]

/-- `check_file_path` finds all of these, one after the other. -/
def AllFound : List (List UInt8) → Globals → Prop
  | [], _ => True
  | path :: rest, σ => ∃ σ', checkFilePath W path σ = .ok (true, σ') ∧ AllFound rest σ'

/-- **The loop comes to the end** of the lines exactly if no copy leaves its buffer and all
files are found. -/
theorem traceActions_ends_iff (acts : List LineAction) (σ : Globals) :
    (∃ σ', (traceActions W acts σ).2 = .ok (0, σ')) ↔
      .overflow ∉ acts ∧ AllFound W (acts.filterMap LineAction.path?) σ := by
  induction acts generalizing σ with
  | nil => exact iff_of_true ⟨σ, rfl⟩ ⟨List.not_mem_nil, trivial⟩
  | cons a rest ih =>
    cases a with
    | skip | enter =>
      rw [traceActions, ih σ, List.filterMap_cons_none rfl]
      simp
    | overflow => simp [traceActions]
    | check path =>
      rw [traceActions, filterMap_check_cons, AllFound]
      cases hcheck : checkFilePath W path σ with
      | error e => simp
      | ok p =>
        obtain ⟨_ | _, σ₁⟩ := p
        · simp
        · dsimp only
          rw [ih σ₁]
          simp

/-! ## The last line -/

/-- What stands behind the last line break, for the bytes of the line read so far. -/
def lastLine (line : List UInt8) : List UInt8 → List UInt8
  | [] => line
  | c :: rest => if c = 0x0D ∨ c = 0x0A then lastLine [] rest else lastLine (line ++ [c]) rest

/-- The ends of lines. -/
def lineEnds : List (List UInt8) := [[0x0A], [0x0D], [0x0D, 0x0A]]

/-- **With a line break behind it** the last line is a line, unless it is empty. -/
theorem splitLines_append_end {lineEnd : List UInt8} (hend : lineEnd ∈ lineEnds)
    (line text : List UInt8) :
    splitLines line (text ++ lineEnd) =
      splitLines line text ++ if lastLine line text = [] then [] else [lastLine line text] := by
  induction text generalizing line with
  | nil =>
    simp only [lineEnds, List.mem_cons, List.not_mem_nil, or_false] at hend
    by_cases hline : line = []
    · rcases hend with rfl | rfl | rfl <;> simp [splitLines, lastLine, hline]
    · rcases hend with rfl | rfl | rfl <;> simp [splitLines, lastLine, hline]
  | cons c rest ih =>
    rw [List.cons_append, splitLines, splitLines, lastLine]
    split
    · split
      · exact ih []
      · rw [ih [], List.cons_append]
    · exact ih _

theorem lineAction_nil (s : UInt8) (dirline : List UInt8) : lineAction s dirline [] = .skip :=
  if_pos (Or.inr (Nat.zero_le _))

/-- The action at a further line. -/
theorem actions_append (s : UInt8) (dirline line : List UInt8) (lines : List (List UInt8)) :
    actions s dirline (lines ++ [line]) = actions s dirline lines ++
      if .overflow ∈ actions s dirline lines then []
      else [lineAction s (dirlineAfter dirline lines) line] := by
  induction lines generalizing dirline with
  | nil => simp [actions, dirlineAfter, nearestSeen]
  | cons first rest ih =>
    rw [List.cons_append, actions, actions]
    by_cases hover : lineAction s dirline first = .overflow
    · simp [hover]
    · rw [if_neg hover, if_neg hover, ih, nextDirline_eq hover, dirlineAfter_cons,
        List.cons_append]
      simp [Ne.symm hover]

/-! ## With or without a final line break -/

/-- The calls are the same, and so is what is returned. -/
def SameLoad (r r' : Trace) : Prop := r.1 = r'.1 ∧ r.2.map Prod.fst = r'.2.map Prod.fst

/-- The action at the last line, if it had a line break behind it. -/
def finalAction (s : UInt8) (text : List UInt8) : LineAction :=
  lineAction s (dirlineAfter [] (splitLines [] text)) (lastLine [] text)

/-- A line break behind the text adds the action at the last line, unless the loop does not
come to it. -/
theorem actions_append_end {lineEnd : List UInt8} (hend : lineEnd ∈ lineEnds) (s : UInt8)
    (text : List UInt8) :
    actions s [] (splitLines [] (text ++ lineEnd)) = actions s [] (splitLines [] text) ++
      if lastLine [] text = [] ∨ .overflow ∈ actions s [] (splitLines [] text) then []
      else [finalAction s text] := by
  rw [splitLines_append_end hend]
  by_cases hlast : lastLine [] text = []
  · simp [hlast]
  · rw [if_neg hlast, actions_append]
    simp [hlast, finalAction]

/-- The loop comes to the end of this text: there is memory for it, every line fits the buffers,
and every file that a line asks for is found. -/
def Ends (text : List UInt8) (σ : Globals) : Prop :=
  W.heap σ.asked ≠ none ∧ .overflow ∉ actions (sep W) [] (splitLines [] text) ∧
    AllFound W ((actions (sep W) [] (splitLines [] text)).filterMap LineAction.path?)
      { σ with asked := σ.asked + 1 }

/-- **A project file with or without a final line break**: the calls and what is returned are
the same exactly if the last line would be no reason to do anything, or the loop does not come
to the end of the text without the line break. -/
theorem final_break_iff (W : World) {path path' text lineEnd : List UInt8}
    (hfile : W.file path = some text) (hfile' : W.file path' = some (text ++ lineEnd))
    (hnul : 0 ∉ text) (hend : lineEnd ∈ lineEnds) (σ : Globals) :
    (loadTrace W path σ).2 = luatCmdLoadLuatools W path σ ∧
    (loadTrace W path' σ).2 = luatCmdLoadLuatools W path' σ ∧
    (SameLoad (loadTrace W path σ) (loadTrace W path' σ) ↔
      finalAction (sep W) text = .skip ∨ finalAction (sep W) text = .enter ∨
        ¬ Ends W text σ) := by
  have hnul' : 0 ∉ text ++ lineEnd := by
    have hbreaks : ∀ e ∈ lineEnds, 0 ∉ e := by decide
    simpa [hnul] using hbreaks lineEnd hend
  refine ⟨loadTrace_snd W hfile hnul σ, loadTrace_snd W hfile' hnul' σ, ?_⟩
  simp only [loadTrace, hfile, hfile', Ends]
  cases hheap : W.heap σ.asked with
  | none =>
    refine iff_of_true ⟨rfl, rfl⟩ (Or.inr (Or.inr ?_))
    simp
  | some junk =>
    dsimp only
    rw [actions_append_end hend, ← traceActions_ends_iff]
    by_cases hsame : lastLine [] text = [] ∨
      .overflow ∈ actions (sep W) [] (splitLines [] text)
    · rw [if_pos hsame, List.append_nil]
      refine iff_of_true ⟨rfl, rfl⟩ ?_
      rcases hsame with hlast | hover
      · exact Or.inl (by rw [finalAction, hlast, lineAction_nil])
      · refine Or.inr (Or.inr fun hdone => ?_)
        exact ((traceActions_ends_iff W _ _).1 hdone.2).1 hover
    · rw [if_neg hsame]
      rcases traceActions_append W (actions (sep W) [] (splitLines [] text))
        [finalAction (sep W) text] { σ with asked := σ.asked + 1 } with
        ⟨σ', hdone, happ⟩ | ⟨hstop, happ⟩
      · -- the loop comes to the last line
        rw [happ, SameLoad, hdone]
        cases hfinal : finalAction (sep W) text with
        | skip => simp [traceActions]
        | enter => simp [traceActions]
        | overflow => simp [traceActions, Except.map]
        | check p =>
          have hcall : (traceActions W [.check p] σ').1 ≠ [] := by
            intro hnil
            have hhead := traceActions_check_head? W p [] σ'
            rw [hnil] at hhead
            cases hhead
          simp [hcall]
      · rw [happ]
        refine iff_of_true ⟨rfl, rfl⟩ (Or.inr (Or.inr fun hdone => ?_))
        obtain ⟨σ', hσ'⟩ := hdone.2
        exact hstop σ' hσ'

/-- A project with one entry, without a final line break. -/
def unended : List UInt8 := ascii "[path1]\nmain.lua = 1"

/-- A world with this project in `a.ini`, and with a line break behind it in `b.ini`. -/
def twoProjects (text : List UInt8) : World :=
  { World.bare with
    file := fun path =>
      if path = ascii "a.ini" then some text
      else if path = ascii "b.ini" then some (text ++ [0x0A]) else none }

theorem twoProjects_a (text : List UInt8) :
    (twoProjects text).file (ascii "a.ini") = some text := by
  simp [twoProjects]

theorem twoProjects_b (text : List UInt8) :
    (twoProjects text).file (ascii "b.ini") = some (text ++ [0x0A]) := by
  have hne : ascii "b.ini" ≠ ascii "a.ini" := by decide
  simp [twoProjects, hne]

/-- A project whose last line is a header without a line break. -/
def headerLast : List UInt8 := ascii "[path1]\nmain.lua = 1\n[path2]"

theorem final_break_header :
    finalAction 0x2F headerLast = .enter ∧
      ∀ σ, SameLoad (loadTrace (twoProjects headerLast) (ascii "a.ini") σ)
        (loadTrace (twoProjects headerLast) (ascii "b.ini") σ) := by
  have hfinal : finalAction 0x2F headerLast = .enter := by decide +kernel
  refine ⟨hfinal, fun σ => ?_⟩
  exact (final_break_iff (twoProjects headerLast) (twoProjects_a _) (twoProjects_b _)
    (by decide +kernel) List.mem_cons_self σ).2.2.2 (Or.inr (Or.inl hfinal))

/-- The last entry of `a.ini` is not looked at; in `b.ini` it is, and the file that it names
is not there. -/
theorem final_break_missing :
    0 ∉ unended ∧
      ∀ σ, luatCmdLoadLuatools (twoProjects unended) (ascii "a.ini") σ =
          .ok (0, { σ with asked := σ.asked + 1 }) ∧
        luatCmdLoadLuatools (twoProjects unended) (ascii "b.ini") σ =
          .ok (-2, { σ with asked := σ.asked + 1 }) ∧
        (loadTrace (twoProjects unended) (ascii "a.ini") σ).1 = [] ∧
        (loadTrace (twoProjects unended) (ascii "b.ini") σ).1 = [ascii "path1/main.lua"] := by
  have hnul : 0 ∉ unended := by decide +kernel
  have hnul' : 0 ∉ unended ++ [0x0A] := by decide +kernel
  have hsep : sep (twoProjects unended) = 0x2F := rfl
  have hlines : actions 0x2F [] (splitLines [] unended) = [.enter] := by decide +kernel
  have hlines' : actions 0x2F [] (splitLines [] (unended ++ [0x0A])) =
      [.enter, .check (ascii "path1/main.lua")] := by decide +kernel
  refine ⟨hnul, fun σ => ?_⟩
  rw [← loadTrace_snd _ (twoProjects_a _) hnul, ← loadTrace_snd _ (twoProjects_b _) hnul']
  have htrace : loadTrace (twoProjects unended) (ascii "a.ini") σ =
      ([], .ok (0, { σ with asked := σ.asked + 1 })) := by
    simp only [loadTrace, twoProjects_a, hsep, hlines]
    rfl
  have htrace' : loadTrace (twoProjects unended) (ascii "b.ini") σ =
      ([ascii "path1/main.lua"], .ok (-2, { σ with asked := σ.asked + 1 })) := by
    simp only [loadTrace, twoProjects_b, hsep, hlines']
    rfl
  rw [htrace, htrace']
  exact ⟨rfl, rfl, rfl, rfl⟩

end LuatosPc.Cmd
