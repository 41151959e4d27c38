import LuatosPc.Luac.Report

/-!
# The totals of a report

What `luadb_do_report` does with the reports of the files: it works out the totals of each
data group of a file, adds the entries to the groups of a report over all files, and works out
the totals of these at the end.

* `DataGroup`, `LuacReport` — a data group with its totals; the groups of a report.
* `doDataGroupReport` — the loop that works out the totals of a group.  It counts an entry and
  takes the count back if the same bytes are found among the entries before it.
* `luacDataGroupAdd`, `luacDataReportExec`, `luacDataReportExecUp` — the merge, and
  `luac_data_report_exec` without and with a report above; `execFiles`, `doTotals` — its calls.
* `summary` — what the totals should be; `reportLoop_eq` — the loop keeps to it entry by entry.
* `Kept` — what the entries of a report have to be for that; `doTotals_ok` — the totals of the
  files and those over all files.
-/

namespace LuatosPc.Luac

open LuatosPc.Bytes

variable {vm : Vm}

/-- What stops `luadb_do_report`. -/
inductive Stop where
  /-- A read behind a file, or a store outside a table. -/
  | fault (why : Fault)
  /-- `memcmp` is given a pointer that does not lead to as many bytes. -/
  | memcmp
  deriving DecidableEq, Repr

/-- `luac_data_group_t`.  The count is the length of the list. -/
structure DataGroup (vm : Vm) where
  data : List (LuacData vm)
  maxLen : Nat
  totalLen : Nat
  uniCount : Nat
  emtrys : Nat

/-- The data groups of `luac_report_t`. -/
abbrev LuacReport (vm : Vm) := Group → DataGroup vm

/-- The block that the union of an entry points to. -/
def LuacData.block (d : LuacData vm) : Option Block :=
  match d.value with
  | .data b => b
  -- a number is not the address of anything
  | .nnum _ => none
  | .nint _ => none

/-! ## The totals of a group -/

/-- `memcmp(d.data, e.data, n) == 0`. -/
def memcmpData (d e : LuacData vm) (n : Nat) : Except Stop Bool :=
  match d.block, e.block with
  | some x, some y =>
    if n ≤ x.length ∧ n ≤ y.length then .ok (decide (x.take n = y.take n)) else .error .memcmp
  | _, _ => .error .memcmp

/-- The inner loop: whether the same bytes are found among the entries before. -/
def foundBefore (d : LuacData vm) : List (LuacData vm) → Except Stop Bool
  | [] => .ok false
  | e :: rest => do
    if d.len = e.len then
      if ← memcmpData d e d.len then return true else foundBefore d rest
    else foundBefore d rest

/-- The totals that the loop adds to, and `hits`. -/
structure Totals where
  maxLen : Nat
  totalLen : Nat
  emtrys : Nat
  hits : Nat
  deriving DecidableEq, Repr

/-- One round of the loop, for the entries before `d`. -/
def reportRound (before : List (LuacData vm)) (d : LuacData vm) (t : Totals) :
    Except Stop Totals := do
  let t := { t with
    maxLen := if t.maxLen < d.len then d.len else t.maxLen
    totalLen := (t.totalLen + d.len) % 2 ^ 32 }
  if d.len = 0 ∨ d.len = 1 then
    return { t with emtrys := t.emtrys + 1 }
  let t := { t with hits := t.hits + 1 }
  -- `i > 0 && dg->data->mark == 0`: it is the mark of the first entry that counts
  if before.head?.any fun first => first.mark = 0 then
    if ← foundBefore d before then return { t with hits := t.hits - 1 } else return t
  else return t

/-- The loop, from the entry behind `before` on. -/
def reportLoop (before : List (LuacData vm)) : List (LuacData vm) → Totals → Except Stop Totals
  | [], t => .ok t
  | d :: rest, t => do reportLoop (before ++ [d]) rest (← reportRound before d t)

/-- `do_data_group_report`. -/
def doDataGroupReport (dg : DataGroup vm) : Except Stop (DataGroup vm) := do
  let t ← reportLoop [] dg.data ⟨dg.maxLen, dg.totalLen, dg.emtrys, 0⟩
  return { dg with
    maxLen := t.maxLen
    totalLen := t.totalLen
    emtrys := t.emtrys
    uniCount := t.hits }

/-! ## The report over all files -/

/-- `dst->data[dst->count] = d; dst->count++`. -/
def addData (dst : DataGroup vm) (d : LuacData vm) : Except Stop (DataGroup vm) :=
  if dst.data.length < 32 * 1024 then .ok { dst with data := dst.data ++ [d] }
  else .error (.fault .overrun)

/-- `luac_data_group_add`. -/
def luacDataGroupAdd (src dst : DataGroup vm) : Except Stop (DataGroup vm) :=
  src.data.foldlM addData dst

/-- The same for each group, in the order of `luac_data_report_exec`. -/
def forGroups (f : Group → DataGroup vm → Except Stop (DataGroup vm)) (rpt : LuacReport vm) :
    Except Stop (LuacReport vm) :=
  [.strs, .codes, .upvalues, .numbers, .lineNumbers].foldlM (fun rpt g => do
    return Function.update rpt g (← f g (rpt g))) rpt

/-- `luac_data_report_exec(rpt, NULL)`. -/
def luacDataReportExec (rpt : LuacReport vm) : Except Stop (LuacReport vm) :=
  forGroups (fun _ => doDataGroupReport) rpt

/-- `luac_data_report_exec(rpt, up_rpt)`. -/
def luacDataReportExecUp (rpt up : LuacReport vm) : Except Stop (LuacReport vm × LuacReport vm) := do
  let rpt ← luacDataReportExec rpt
  let up ← forGroups (fun g => luacDataGroupAdd (rpt g)) up
  return (rpt, up)

/-- The report of a file as the reader leaves it: the totals are zero. -/
def LuacReport.ofReport (rpt : Report vm) : LuacReport vm := fun g => ⟨rpt.group g, 0, 0, 0, 0⟩

/-- The loop of `luadb_do_report` over the files that have a report. -/
def execFiles (total : LuacReport vm) :
    List (Report vm) → Except Stop (List (LuacReport vm) × LuacReport vm)
  | [] => .ok ([], total)
  | rpt :: rest => do
    let (rpt, total) ← luacDataReportExecUp (.ofReport rpt) total
    let (rpts, total) ← execFiles total rest
    return (rpt :: rpts, total)

/-- The part of `luadb_do_report` that works out totals: the reports of the files, and the
report over all of them. -/
def doTotals (rpts : List (Report vm)) : Except Stop (List (LuacReport vm) × LuacReport vm) := do
  let (rpts, total) ← execFiles (.ofReport (Report.zero vm)) rpts
  return (rpts, ← luacDataReportExec total)

/-! ## What the totals should be -/

/-- The bytes of an entry. -/
def LuacData.content (d : LuacData vm) : List UInt8 := d.block.getD []

/-- The entry has as many bytes as it says, and is not marked. -/
def LuacData.Held (d : LuacData vm) : Prop := d.content.length = d.len ∧ d.mark = 0

/-- The maximum, which is 0 if there is nothing. -/
def maxOf (ns : List Nat) : Nat := ns.foldl max 0

/-- The lengths of the entries. -/
def lens (data : List (LuacData vm)) : List Nat := data.map (·.len)

/-- The bytes of the entries longer than 1. -/
def contents (data : List (LuacData vm)) : List (List UInt8) :=
  (data.filter fun d => 1 < d.len).map (·.content)

/-- The number of entries of length 0 or 1. -/
def emptyCount (data : List (LuacData vm)) : Nat := data.countP fun d => d.len = 0 ∨ d.len = 1

/-- The totals of some entries. -/
def summary (data : List (LuacData vm)) : Totals where
  maxLen := maxOf (lens data)
  totalLen := (lens data).sum
  emtrys := emptyCount data
  hits := (contents data).toFinset.card

theorem maxOf_append (ms ns : List Nat) : maxOf (ms ++ ns) = max (maxOf ms) (maxOf ns) := by
  calc maxOf (ms ++ ns) = ns.foldl max (max (maxOf ms) 0) := by
        rw [maxOf, List.foldl_append, Nat.max_zero, maxOf]
    _ = max (maxOf ms) (maxOf ns) := List.foldl_assoc

theorem maxOf_singleton (n : Nat) : maxOf [n] = n := Nat.zero_max n

theorem maxOf_flatten (nss : List (List Nat)) : maxOf nss.flatten = maxOf (nss.map maxOf) := by
  induction nss with
  | nil => rfl
  | cons ns nss ih =>
    rw [List.flatten_cons, maxOf_append, ih, List.map_cons, ← List.singleton_append, maxOf_append,
      maxOf_singleton]

theorem lens_append (xs ys : List (LuacData vm)) : lens (xs ++ ys) = lens xs ++ lens ys :=
  List.map_append

theorem lens_singleton (d : LuacData vm) : lens [d] = [d.len] := rfl

section

variable {d e : LuacData vm} {before rest : List (LuacData vm)}

theorem contents_append_long (h : 1 < d.len) :
    contents (before ++ [d]) = contents before ++ [d.content] := by
  simp [contents, h]

theorem contents_append_short (h : ¬ 1 < d.len) : contents (before ++ [d]) = contents before := by
  simp [contents, h]

/-- An entry that is not empty points to its bytes. -/
theorem LuacData.Held.block_eq (h : d.Held) (hpos : 0 < d.len) : d.block = some d.content := by
  have hlen := h.1
  rw [LuacData.content] at hlen ⊢
  cases hb : d.block with
  | none =>
    rw [hb] at hlen
    exact absurd hlen.symm hpos.ne'
  | some b => rfl

/-- Entries of the same length are compared byte by byte. -/
theorem memcmpData_eq (hd : d.Held) (he : e.Held) (hlen : d.len = e.len) (hpos : 0 < d.len) :
    memcmpData d e d.len = .ok (decide (d.content = e.content)) := by
  have hroom : d.len ≤ d.content.length ∧ d.len ≤ e.content.length :=
    ⟨hd.1.ge, hlen.trans_le he.1.ge⟩
  rw [memcmpData, hd.block_eq hpos, he.block_eq (hlen ▸ hpos)]
  dsimp only
  rw [if_pos hroom, List.take_of_length_le hd.1.le, List.take_of_length_le (hlen ▸ he.1.le)]

/-- **The search** finds an entry if its bytes occurred before. -/
theorem foundBefore_eq (hd : d.Held) (hlong : 1 < d.len) (hbefore : ∀ e ∈ before, e.Held) :
    foundBefore d before = .ok (decide (d.content ∈ contents before)) := by
  induction before with
  | nil => rfl
  | cons e rest ih =>
    obtain ⟨he, hrest⟩ := List.forall_mem_cons.1 hbefore
    rw [foundBefore]
    by_cases hlen : d.len = e.len
    · have hcons : contents (e :: rest) = e.content :: contents rest := by
        simp [contents, ← hlen, hlong]
      rw [if_pos hlen, memcmpData_eq hd he hlen (by omega), hcons]
      by_cases hsame : d.content = e.content
      · simp [hsame]
        rfl
      · have hmem : d.content ∈ e.content :: contents rest ↔ d.content ∈ contents rest := by
          simp [hsame]
        rw [decide_eq_false hsame, decide_eq_decide.2 hmem]
        exact ih hrest
    · -- an entry of another length has other bytes
      have hother : d.content ≠ e.content := by
        intro hsame
        exact hlen (hd.1.symm.trans ((congrArg List.length hsame).trans he.1))
      have hmem : d.content ∈ contents (e :: rest) ↔ d.content ∈ contents rest := by
        by_cases hshort : 1 < e.len <;> simp [contents, hshort, hother]
      rw [if_neg hlen, ih hrest, decide_eq_decide.2 hmem]

theorem maxOf_lens_snoc (before : List (LuacData vm)) (d : LuacData vm) :
    maxOf (lens (before ++ [d])) =
      if maxOf (lens before) < d.len then d.len else maxOf (lens before) := by
  rw [lens_append, lens_singleton, maxOf_append, maxOf_singleton]
  split <;> omega

theorem sum_lens_snoc (before : List (LuacData vm)) (d : LuacData vm) :
    (lens (before ++ [d])).sum = (lens before).sum + d.len := by
  rw [lens_append, lens_singleton, List.sum_append, List.sum_singleton]

theorem emptyCount_snoc (before : List (LuacData vm)) (d : LuacData vm) :
    emptyCount (before ++ [d]) =
      emptyCount before + if d.len = 0 ∨ d.len = 1 then 1 else 0 := by
  rw [emptyCount, List.countP_append, List.countP_singleton]
  simp only [decide_eq_true_eq, emptyCount]

/-- **One round** leaves the totals of one entry more. -/
theorem reportRound_eq (hd : d.Held) (hbefore : ∀ e ∈ before, e.Held)
    (hsum : (lens (before ++ [d])).sum < 2 ^ 32) :
    reportRound before d (summary before) = .ok (summary (before ++ [d])) := by
  have htotal : (lens (before ++ [d])).sum = ((lens before).sum + d.len) % 2 ^ 32 := by
    rw [← sum_lens_snoc, Nat.mod_eq_of_lt hsum]
  rw [reportRound, summary, summary, maxOf_lens_snoc, htotal, emptyCount_snoc]
  by_cases hshort : d.len = 0 ∨ d.len = 1
  · rw [if_pos hshort, if_pos hshort, contents_append_short (by omega)]
    rfl
  have hlong : 1 < d.len := by omega
  rw [if_neg hshort, if_neg hshort, contents_append_long hlong, List.toFinset_append]
  have hfound := foundBefore_eq hd hlong hbefore
  cases before with
  | nil => rfl
  | cons first rest =>
    have hmark : ((first :: rest).head?.any fun first => first.mark = 0) = true := by
      simpa using (hbefore first List.mem_cons_self).2
    rw [if_pos hmark, hfound]
    by_cases hmem : d.content ∈ contents (first :: rest)
    · have hcard : ((contents (first :: rest)).toFinset ∪ [d.content].toFinset).card =
          (contents (first :: rest)).toFinset.card := by
        congr 1
        simpa using hmem
      rw [decide_eq_true hmem, hcard]
      rfl
    · have hcard : ((contents (first :: rest)).toFinset ∪ [d.content].toFinset).card =
          (contents (first :: rest)).toFinset.card + 1 := by
        rw [Finset.card_union_of_disjoint (by simpa using hmem)]
        rfl
      rw [decide_eq_false hmem, hcard]
      rfl

/-- **The loop** keeps the totals of the entries behind it. -/
theorem reportLoop_eq (hbefore : ∀ e ∈ before, e.Held) (hrest : ∀ e ∈ rest, e.Held)
    (hsum : (lens (before ++ rest)).sum < 2 ^ 32) :
    reportLoop before rest (summary before) = .ok (summary (before ++ rest)) := by
  induction rest generalizing before with
  | nil => rw [reportLoop, List.append_nil]
  | cons d rest ih =>
    obtain ⟨hd, hrest⟩ := List.forall_mem_cons.1 hrest
    have hsplit : before ++ d :: rest = before ++ [d] ++ rest := by simp
    rw [hsplit] at hsum
    have hround : (lens (before ++ [d])).sum < 2 ^ 32 := by
      rw [lens_append, List.sum_append] at hsum
      omega
    have hnext : ∀ e ∈ before ++ [d], e.Held := by
      simpa [or_imp, forall_and, hd] using hbefore
    rw [reportLoop, reportRound_eq hd hbefore hround, hsplit]
    exact ih hnext hrest hsum

end

/-! ## Groups -/

/-- **The totals of a group are exact.** -/
structure DataGroup.Exact (dg : DataGroup vm) : Prop where
  held : ∀ d ∈ dg.data, d.Held
  maxLen : dg.maxLen = maxOf (lens dg.data)
  totalLen : dg.totalLen = (lens dg.data).sum
  emtrys : dg.emtrys = emptyCount dg.data
  uniCount : dg.uniCount = (contents dg.data).toFinset.card

/-- What the reader puts into a group: numbers are marked, anything else has its bytes. -/
def LuacData.Kept (g : Group) (d : LuacData vm) : Prop := if g = .numbers then d.mark ≠ 0 else d.Held

/-- The group has its totals: they are exact unless it is the group of the numbers. -/
structure DataGroup.Done (g : Group) (data : List (LuacData vm)) (dg : DataGroup vm) : Prop where
  data_eq : dg.data = data
  exact : g ≠ .numbers → dg.Exact

/-- Marked entries are not compared. -/
theorem reportLoop_marked {before rest : List (LuacData vm)} (hbefore : ∀ d ∈ before, d.mark ≠ 0)
    (hrest : ∀ d ∈ rest, d.mark ≠ 0) (t : Totals) : ∃ t', reportLoop before rest t = .ok t' := by
  induction rest generalizing before t with
  | nil => exact ⟨t, rfl⟩
  | cons d rest ih =>
    obtain ⟨hd, hrest⟩ := List.forall_mem_cons.1 hrest
    have hmark : ¬ (before.head?.any fun first => first.mark = 0) = true := by
      cases before with
      | nil => simp
      | cons first _ => simpa using hbefore first List.mem_cons_self
    obtain ⟨t₁, hround⟩ : ∃ t₁, reportRound before d t = .ok t₁ := by
      rw [reportRound, if_neg hmark]
      split
      · exact ⟨_, rfl⟩
      · exact ⟨_, rfl⟩
    rw [reportLoop, hround]
    exact ih (by simpa [or_imp, forall_and, hd] using hbefore) hrest t₁

/-- **A group gets its totals.** -/
theorem doDataGroupReport_done {g : Group} {data : List (LuacData vm)}
    (hkept : ∀ d ∈ data, d.Kept g) (hsum : g ≠ .numbers → (lens data).sum < 2 ^ 32) :
    ∃ dg, doDataGroupReport ⟨data, 0, 0, 0, 0⟩ = .ok dg ∧ dg.Done g data := by
  by_cases hg : g = .numbers
  · have hmarked : ∀ d ∈ data, d.mark ≠ 0 := by
      intro d hd
      have hd' := hkept d hd
      rwa [LuacData.Kept, if_pos hg] at hd'
    have hnone : ∀ d ∈ ([] : List (LuacData vm)), d.mark ≠ 0 := by simp
    obtain ⟨t, hloop⟩ := reportLoop_marked hnone hmarked ⟨0, 0, 0, 0⟩
    rw [doDataGroupReport, hloop]
    exact ⟨_, rfl, rfl, fun hne => absurd hg hne⟩
  · have hheld : ∀ d ∈ data, d.Held := by
      intro d hd
      have hd' := hkept d hd
      rwa [LuacData.Kept, if_neg hg] at hd'
    have hloop : reportLoop [] data ⟨0, 0, 0, 0⟩ = .ok (summary data) :=
      reportLoop_eq (by simp) hheld (hsum hg)
    rw [doDataGroupReport, hloop]
    exact ⟨_, rfl, rfl, fun _ => ⟨hheld, rfl, rfl, rfl, rfl⟩⟩

/-- Entries are added at the end, if there is room. -/
theorem luacDataGroupAdd_of_le {src dst : DataGroup vm}
    (h : dst.data.length + src.data.length ≤ 32 * 1024) :
    luacDataGroupAdd src dst = .ok { dst with data := dst.data ++ src.data } := by
  obtain ⟨data, _, _, _, _⟩ := src
  rw [luacDataGroupAdd]
  dsimp only at h ⊢
  induction data generalizing dst with
  | nil => rw [List.append_nil]; rfl
  | cons d data ih =>
    rw [List.length_cons] at h
    rw [List.foldlM_cons, addData, if_pos (by omega)]
    refine (ih ?_).trans ?_
    · rw [List.length_append, List.length_singleton]
      omega
    · rw [List.append_assoc]
      rfl

/-- There is no room. -/
theorem luacDataGroupAdd_of_lt {src dst : DataGroup vm} (hdst : dst.data.length ≤ 32 * 1024)
    (h : 32 * 1024 < dst.data.length + src.data.length) :
    luacDataGroupAdd src dst = .error (.fault .overrun) := by
  obtain ⟨data, _, _, _, _⟩ := src
  rw [luacDataGroupAdd]
  dsimp only at h ⊢
  induction data generalizing dst with
  | nil => exact absurd h (Nat.not_lt.2 hdst)
  | cons d data ih =>
    rw [List.length_cons] at h
    rw [List.foldlM_cons, addData]
    split
    · refine ih ?_ ?_
      · rw [List.length_append, List.length_singleton]
        omega
      · rw [List.length_append, List.length_singleton]
        omega
    · rfl

/-! ## All groups -/

section

variable {f : Group → DataGroup vm → Except Stop (DataGroup vm)} {gs : List Group}
  {rpt rpt' : LuacReport vm}

/-- The groups are updated one after the other. -/
theorem foldlM_update_ok (hnodup : gs.Nodup) (h : ∀ g ∈ gs, f g (rpt g) = .ok (rpt' g)) :
    gs.foldlM (fun rpt g => do return Function.update rpt g (← f g (rpt g))) rpt =
      .ok fun g => if g ∈ gs then rpt' g else rpt g := by
  induction gs generalizing rpt with
  | nil =>
    simp
    rfl
  | cons first rest ih =>
    obtain ⟨hfirst, hrest⟩ := List.forall_mem_cons.1 h
    obtain ⟨hnew, hnodup⟩ := List.nodup_cons.1 hnodup
    rw [List.foldlM_cons, hfirst]
    refine (ih hnodup ?_).trans (congrArg Except.ok (funext fun g => ?_))
    · intro g hg
      rw [Function.update_of_ne (ne_of_mem_of_not_mem hg hnew)]
      exact hrest g hg
    · by_cases hg : g = first
      · subst hg
        simp [hnew]
      · simp [hg]

/-- A group that cannot be updated stops the others. -/
theorem foldlM_update_error {e : Stop} (hnodup : gs.Nodup)
    (h : ∀ g ∈ gs, (∃ dg, f g (rpt g) = .ok dg) ∨ f g (rpt g) = .error e)
    (hbad : ∃ g ∈ gs, f g (rpt g) = .error e) :
    gs.foldlM (fun rpt g => do return Function.update rpt g (← f g (rpt g))) rpt = .error e := by
  induction gs generalizing rpt with
  | nil => simp at hbad
  | cons first rest ih =>
    obtain ⟨hfirst, hrest⟩ := List.forall_mem_cons.1 h
    obtain ⟨hnew, hnodup⟩ := List.nodup_cons.1 hnodup
    rw [List.foldlM_cons]
    obtain ⟨dg, hok⟩ | hfail := hfirst
    · rw [hok]
      have hsame : ∀ g ∈ rest, Function.update rpt first dg g = rpt g := fun g hg =>
        Function.update_of_ne (ne_of_mem_of_not_mem hg hnew) _ _
      refine ih hnodup ?_ ?_
      · intro g hg
        rw [hsame g hg]
        exact hrest g hg
      · obtain ⟨g, hg, hfail⟩ := hbad
        rcases List.mem_cons.1 hg with rfl | hg
        · rw [hok] at hfail
          cases hfail
        · exact ⟨g, hg, by rwa [hsame g hg]⟩
    · rw [hfail]
      rfl

theorem forGroups_ok (h : ∀ g, f g (rpt g) = .ok (rpt' g)) : forGroups f rpt = .ok rpt' := by
  rw [forGroups, foldlM_update_ok (by decide) fun g _ => h g]
  congr 1
  funext g
  cases g <;> rfl

theorem forGroups_error {e : Stop} (h : ∀ g, (∃ dg, f g (rpt g) = .ok dg) ∨ f g (rpt g) = .error e)
    {g : Group} (hbad : f g (rpt g) = .error e) : forGroups f rpt = .error e :=
  foldlM_update_error (by decide) (fun g _ => h g) ⟨g, by cases g <;> decide, hbad⟩

end

/-! ## Reports -/

/-- The entries of the report are what the reader puts there. -/
def Report.Kept (rpt : Report vm) : Prop := ∀ g, ∀ d ∈ rpt.group g, d.Kept g

/-- The entries of one group of all reports. -/
def merged (rpts : List (Report vm)) (g : Group) : List (LuacData vm) :=
  (rpts.map (·.group g)).flatten

/-- The lengths of the entries, the numbers apart, can be added up in a `size_t`. -/
def SumsFit (rpts : List (Report vm)) : Prop :=
  ∀ g, g ≠ .numbers → (lens (merged rpts g)).sum < 2 ^ 32

/-- The report of a file with its totals. -/
def LuacReport.Done (rpt : Report vm) (r : LuacReport vm) : Prop := ∀ g, (r g).Done g (rpt.group g)

/-- Entries behind those of a report. -/
def appendData (rpt : LuacReport vm) (data : Group → List (LuacData vm)) : LuacReport vm := fun g =>
  { rpt g with data := (rpt g).data ++ data g }

theorem appendData_appendData (rpt : LuacReport vm) (xs ys : Group → List (LuacData vm)) :
    appendData (appendData rpt xs) ys = appendData rpt fun g => xs g ++ ys g := by
  funext g
  simp only [appendData, List.append_assoc]

/-- **A report gets its totals.** -/
theorem luacDataReportExec_done {data : Group → List (LuacData vm)}
    (hkept : ∀ g, ∀ d ∈ data g, d.Kept g)
    (hsum : ∀ g, g ≠ .numbers → (lens (data g)).sum < 2 ^ 32) :
    ∃ r : LuacReport vm, luacDataReportExec (fun g => ⟨data g, 0, 0, 0, 0⟩) = .ok r ∧
      ∀ g, (r g).Done g (data g) := by
  choose r hr hdone using fun g => doDataGroupReport_done (hkept g) (hsum g)
  exact ⟨r, forGroups_ok hr, hdone⟩

/-- The entries of a report are added to those above, if there is room. -/
theorem luacDataReportExecUp_ok {rpt : Report vm} {up : LuacReport vm} (hkept : rpt.Kept)
    (hsum : ∀ g, g ≠ .numbers → (lens (rpt.group g)).sum < 2 ^ 32)
    (hroom : ∀ g, (up g).data.length + (rpt.group g).length ≤ 32 * 1024) :
    ∃ r, luacDataReportExecUp (.ofReport rpt) up = .ok (r, appendData up rpt.group) ∧
      LuacReport.Done rpt r := by
  obtain ⟨r, hexec, hdone⟩ : ∃ r, luacDataReportExec (.ofReport rpt) = .ok r ∧
    LuacReport.Done rpt r := luacDataReportExec_done hkept hsum
  have hadd : forGroups (fun g => luacDataGroupAdd (r g)) up = .ok (appendData up rpt.group) := by
    refine forGroups_ok fun g => ?_
    rw [appendData, ← (hdone g).data_eq]
    refine luacDataGroupAdd_of_le ?_
    rw [(hdone g).data_eq]
    exact hroom g
  refine ⟨r, ?_, hdone⟩
  rw [luacDataReportExecUp, hexec]
  exact congrArg (fun x => x >>= fun up => Except.ok (r, up)) hadd

theorem merged_cons (rpt : Report vm) (rpts : List (Report vm)) (g : Group) :
    merged (rpt :: rpts) g = rpt.group g ++ merged rpts g := rfl

theorem SumsFit.of_cons {rpt : Report vm} {rpts : List (Report vm)} (h : SumsFit (rpt :: rpts)) :
    (∀ g, g ≠ .numbers → (lens (rpt.group g)).sum < 2 ^ 32) ∧ SumsFit rpts := by
  have hsplit : ∀ g, g ≠ .numbers →
      (lens (rpt.group g)).sum + (lens (merged rpts g)).sum < 2 ^ 32 := by
    intro g hg
    rw [← List.sum_append, ← lens_append]
    exact h g hg
  exact ⟨fun g hg => by have := hsplit g hg; omega, fun g hg => by have := hsplit g hg; omega⟩

/-- **The files one after the other**: each gets its totals, and the entries of all of them come
together. -/
theorem execFiles_ok {rpts : List (Report vm)} {total : LuacReport vm}
    (hkept : ∀ rpt ∈ rpts, rpt.Kept) (hsum : SumsFit rpts)
    (hroom : ∀ g, (total g).data.length + (merged rpts g).length ≤ 32 * 1024) :
    ∃ rs, execFiles total rpts = .ok (rs, appendData total (merged rpts)) ∧
      List.Forall₂ LuacReport.Done rpts rs := by
  induction rpts generalizing total with
  | nil =>
    refine ⟨[], congrArg (fun t => Except.ok ([], t)) (funext fun g => ?_), .nil⟩
    simp [appendData, merged]
  | cons rpt rpts ih =>
    obtain ⟨hrpt, hrest⟩ := List.forall_mem_cons.1 hkept
    obtain ⟨hsum₁, hsum₂⟩ := hsum.of_cons
    have hlen : ∀ g, (total g).data.length + (rpt.group g).length + (merged rpts g).length ≤
        32 * 1024 := by
      intro g
      have := hroom g
      rw [merged_cons, List.length_append] at this
      omega
    have hroom₁ : ∀ g, (total g).data.length + (rpt.group g).length ≤ 32 * 1024 := fun g =>
      (Nat.le_add_right _ _).trans (hlen g)
    have hroom₂ : ∀ g, (appendData total rpt.group g).data.length + (merged rpts g).length ≤
        32 * 1024 := by
      intro g
      rw [appendData, List.length_append]
      exact hlen g
    obtain ⟨r, hexec, hdone⟩ := luacDataReportExecUp_ok hrpt hsum₁ hroom₁
    obtain ⟨rs, hrestok, hall⟩ := ih hrest hsum₂ hroom₂
    refine ⟨r :: rs, ?_, .cons hdone hall⟩
    rw [appendData_appendData] at hrestok
    rw [execFiles, hexec]
    exact congrArg (fun x => x >>= fun p => Except.ok (r :: p.1, p.2)) hrestok

/-- The entries of a report do not fit behind those above. -/
theorem luacDataReportExecUp_error {rpt : Report vm} {up : LuacReport vm} (hkept : rpt.Kept)
    (hsum : ∀ g, g ≠ .numbers → (lens (rpt.group g)).sum < 2 ^ 32)
    (hup : ∀ g, (up g).data.length ≤ 32 * 1024) {g : Group}
    (hfull : 32 * 1024 < (up g).data.length + (rpt.group g).length) :
    luacDataReportExecUp (.ofReport rpt) up = .error (.fault .overrun) := by
  obtain ⟨r, hexec, hdone⟩ : ∃ r, luacDataReportExec (.ofReport rpt) = .ok r ∧
    LuacReport.Done rpt r := luacDataReportExec_done hkept hsum
  have hadd : forGroups (fun g => luacDataGroupAdd (r g)) up = .error (.fault .overrun) := by
    refine forGroups_error (fun g => ?_)
      (luacDataGroupAdd_of_lt (hup g) (by rwa [(hdone g).data_eq]))
    by_cases hfits : (up g).data.length + (r g).data.length ≤ 32 * 1024
    · exact Or.inl ⟨_, luacDataGroupAdd_of_le hfits⟩
    · exact Or.inr (luacDataGroupAdd_of_lt (hup g) (Nat.not_le.1 hfits))
  rw [luacDataReportExecUp, hexec]
  exact congrArg (fun x => x >>= fun up => Except.ok (r, up)) hadd

/-- The entries of all files do not fit into one report. -/
theorem execFiles_error {rpts : List (Report vm)} {total : LuacReport vm}
    (hkept : ∀ rpt ∈ rpts, rpt.Kept) (hsum : SumsFit rpts)
    (htotal : ∀ g, (total g).data.length ≤ 32 * 1024) {g : Group}
    (hfull : 32 * 1024 < (total g).data.length + (merged rpts g).length) :
    execFiles total rpts = .error (.fault .overrun) := by
  induction rpts generalizing total with
  | nil => exact absurd hfull (Nat.not_lt.2 (htotal g))
  | cons rpt rpts ih =>
    obtain ⟨hrpt, hrest⟩ := List.forall_mem_cons.1 hkept
    obtain ⟨hsum₁, hsum₂⟩ := hsum.of_cons
    rw [execFiles]
    by_cases hroom : ∀ g, (total g).data.length + (rpt.group g).length ≤ 32 * 1024
    · have hnext : ∀ g, (appendData total rpt.group g).data.length =
          (total g).data.length + (rpt.group g).length := fun g => List.length_append
      obtain ⟨r, hexec, -⟩ := luacDataReportExecUp_ok hrpt hsum₁ hroom
      rw [hexec]
      have hfull' : 32 * 1024 < (appendData total rpt.group g).data.length +
          (merged rpts g).length := by
        rw [merged_cons, List.length_append] at hfull
        rw [hnext]
        omega
      have hfail := ih hrest hsum₂ (fun g => (hnext g).trans_le (hroom g)) hfull'
      exact congrArg (fun x => x >>= fun p => Except.ok (r :: p.1, p.2)) hfail
    · obtain ⟨g', hg'⟩ := not_forall.1 hroom
      rw [luacDataReportExecUp_error hrpt hsum₁ htotal (Nat.not_le.1 hg')]
      rfl

/-- **All totals**: those of the files, and those over all files. -/
theorem doTotals_ok {rpts : List (Report vm)} (hkept : ∀ rpt ∈ rpts, rpt.Kept)
    (hsum : SumsFit rpts) (hroom : ∀ g, (merged rpts g).length ≤ 32 * 1024) :
    ∃ rs total, doTotals rpts = .ok (rs, total) ∧ List.Forall₂ LuacReport.Done rpts rs ∧
      ∀ g, (total g).Done g (merged rpts g) := by
  have hroom₀ : ∀ g, (LuacReport.ofReport (Report.zero vm) g).data.length +
      (merged rpts g).length ≤ 32 * 1024 := by
    intro g
    rw [LuacReport.ofReport, Report.zero, List.length_nil, Nat.zero_add]
    exact hroom g
  obtain ⟨rs, hfiles, hall⟩ := execFiles_ok hkept hsum hroom₀
  have hmerged : ∀ g, ∀ d ∈ merged rpts g, d.Kept g := by
    intro g d hd
    obtain ⟨data, hdata, hd⟩ := List.mem_flatten.1 hd
    obtain ⟨rpt, hrpt, rfl⟩ := List.mem_map.1 hdata
    exact hkept rpt hrpt g d hd
  obtain ⟨total, hexec, hdone⟩ := luacDataReportExec_done hmerged hsum
  refine ⟨rs, total, ?_, hall, hdone⟩
  rw [doTotals, hfiles]
  exact congrArg (fun x => x >>= fun t => Except.ok (rs, t)) hexec

/-- There is no room for the entries of all files. -/
theorem doTotals_error {rpts : List (Report vm)} (hkept : ∀ rpt ∈ rpts, rpt.Kept)
    (hsum : SumsFit rpts) {g : Group} (hfull : 32 * 1024 < (merged rpts g).length) :
    doTotals rpts = .error (.fault .overrun) := by
  have hzero : ∀ g, (LuacReport.ofReport (Report.zero vm) g).data.length = 0 := fun _ => rfl
  rw [doTotals, execFiles_error hkept hsum (g := g) (fun g => (hzero g).trans_le (Nat.zero_le _))
    (by rw [hzero]; omega)]
  rfl

end LuatosPc.Luac
