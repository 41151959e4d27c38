import LuatosPc.Cmd.Files

/-!
# The base name of a path

How `add_onefile` finds the name under which a file is stored: it looks for the last
separator from the end of the path on, and copies as many bytes from behind it as the path
has, less one.  `luat_cmd_load_and_analyse` and `load_mock_lua_file` hold the same lines.

* `scanBack` — the loop; `Copy` — a range of bytes that `memcpy` reads, counted from the
  first byte of the path; `copyName` — the buffer `tmpname` and the copies into it, for
  whatever stands in memory behind the path.
* `IsBaseName` — the part of a path behind its last separator.
* `base_name_iff` — the name is always right, but the copy stays inside the path if and only
  if there is no separator behind the first two bytes.
-/

namespace LuatosPc.Cmd

open LuatosPc.Bytes LuatosPc.Luadb

/-- The loop `for (i = k; i > 0; i--)`: the index behind the last separator. -/
def scanBack (path : List UInt8) : Nat → Option Nat
  | 0 => none
  | i + 1 => if isSep (path.getD i 0) then some (i + 1) else scanBack path i

/-- The bytes that a `memcpy` reads. -/
structure Copy where
  start : Nat
  size : Nat
  deriving DecidableEq, Repr

/-- The memory from the first byte of the path on: the path, its terminator, and as much of
what stands behind it as a copy can reach. -/
def pathMemory (path : CString) (behind : Nat → UInt8) : List UInt8 :=
  path.bytes ++ 0 :: (List.range (strlen path)).map behind

/-- What a copy reads. -/
def Copy.bytes (c : Copy) (mem : List UInt8) : List UInt8 := (mem.drop c.start).take c.size

/-- `memcpy(tmpname, path + start, size)`. -/
def memcpyName (mem : List UInt8) (tmpname : Block) (c : Copy) : Option Block :=
  store tmpname 0 (c.bytes mem)

/-- The copy from behind the last separator, if there is one. -/
def sepCopy (path : CString) : Option Copy :=
  (scanBack path.bytes (strlen path)).map fun i => ⟨i, strlen path - 1⟩

/-- `tmpname` as `add_onefile` fills it, and the copies that it makes. -/
def copyName (path : CString) (behind : Nat → UInt8) : Option (Block × List Copy) := do
  let mem := pathMemory path behind
  let tmpname : Block := List.replicate 512 0
  let copies := (sepCopy path).toList
  let tmpname ← copies.foldlM (memcpyName mem) tmpname
  if tmpname.getD 0 0 = 0 then
    let all : Copy := ⟨0, strlen path⟩
    return (← memcpyName mem tmpname all, copies ++ [all])
  else return (tmpname, copies)

/-- The copy reads nothing beyond the terminator of the path. -/
def Copy.Inside (c : Copy) (path : CString) : Prop := c.start + c.size ≤ strlen path + 1

/-- The part of the path behind its last separator, or the whole path. -/
def IsBaseName (path name : List UInt8) : Prop :=
  (∀ c ∈ name, isSep c = false) ∧
    ∃ dir, path = dir ++ name ∧ (dir = [] ∨ ∃ d s, dir = d ++ [s] ∧ isSep s = true)

/-! ## The loop -/

/-- Nothing is found if there is no separator among the first `k` bytes. -/
theorem scanBack_none {path : List UInt8} {k : Nat} (hk : k ≤ path.length)
    (h : scanBack path k = none) : ∀ c ∈ path.take k, isSep c = false := by
  induction k with
  | zero => simp
  | succ i ih =>
    rw [scanBack] at h
    split at h
    · cases h
    · rename_i hi
      rw [List.getD_eq_getElem _ _ hk] at hi
      rw [List.take_succ_eq_append_getElem hk]
      intro c hc
      rcases List.mem_append.1 hc with hc | hc
      · exact ih (by omega) h c hc
      · rw [List.mem_singleton.1 hc]
        exact Bool.eq_false_of_not_eq_true hi

/-- What is found splits the first `k` bytes behind their last separator. -/
theorem scanBack_some {path : List UInt8} {k i : Nat} (hk : k ≤ path.length)
    (h : scanBack path k = some i) :
    ∃ d s name, path.take k = d ++ s :: name ∧ isSep s = true ∧
      (∀ c ∈ name, isSep c = false) ∧ i = d.length + 1 := by
  induction k with
  | zero => cases h
  | succ j ih =>
    have hlast := List.take_succ_eq_append_getElem hk
    rw [scanBack, List.getD_eq_getElem _ _ hk] at h
    split at h
    · rename_i hsep
      cases h
      exact ⟨path.take j, path[j], [], hlast, hsep, by simp, by simp; omega⟩
    · rename_i hsep
      obtain ⟨d, s, name, htake, hs, hname, hi⟩ := ih (by omega) h
      refine ⟨d, s, name ++ [path[j]], by simp [hlast, htake], hs, ?_, hi⟩
      intro c hc
      rcases List.mem_append.1 hc with hc | hc
      · exact hname c hc
      · rw [List.mem_singleton.1 hc]
        exact Bool.eq_false_of_not_eq_true hsep

/-! ## The base name -/

/-- A path has one base name. -/
theorem IsBaseName.eq_takeWhile {path name : List UInt8} (h : IsBaseName path name) :
    name = (path.reverse.takeWhile fun c => !isSep c).reverse := by
  obtain ⟨hname, dir, rfl, hdir⟩ := h
  have hall : ∀ c ∈ name.reverse, (!isSep c) = true := by
    intro c hc
    rw [hname c (List.mem_reverse.1 hc)]
    rfl
  rw [List.reverse_append, List.takeWhile_append_of_pos hall]
  rcases hdir with rfl | ⟨d, s, rfl, hs⟩
  · simp
  · simp [hs]

/-- The name of the model of `add_onefile` is the base name, if that is not empty. -/
theorem IsBaseName.tmpname_eq {path name : List UInt8} (h : IsBaseName path name)
    (hne : name ≠ []) : tmpname path = cstr name := by
  rw [tmpname, ← h.eq_takeWhile, if_neg hne]

/-! ## The copies -/

/-- A string that is copied with any number of bytes behind it is terminated in the buffer, by
its own terminator or by a zero of the buffer. -/
theorem take_terminated (name junk : List UInt8) {n : Nat} (hname : name.length ≤ n)
    (hn : n ≤ 511) :
    ∃ rest, (name ++ 0 :: junk).take n ++
      List.replicate (512 - ((name ++ 0 :: junk).take n).length) 0 = name ++ 0 :: rest := by
  rcases hname.eq_or_lt with rfl | hlt
  · refine ⟨List.replicate (511 - name.length) 0, ?_⟩
    rw [List.take_left, show 512 - name.length = 511 - name.length + 1 by omega,
      List.replicate_succ]
  · obtain ⟨m, rfl⟩ : ∃ m, n = name.length + (m + 1) := ⟨n - name.length - 1, by omega⟩
    rw [List.take_length_add_append, List.take_succ_cons, List.append_assoc, List.cons_append]
    exact ⟨_, rfl⟩

variable {path : CString}

/-- What a copy from behind a separator reads. -/
theorem drop_pathMemory (behind : Nat → UInt8) {d name : List UInt8} {s : UInt8}
    (hpath : path.bytes = d ++ s :: name) :
    (pathMemory path behind).drop (d.length + 1) =
      name ++ 0 :: (List.range (strlen path)).map behind := by
  have hsplit : pathMemory path behind =
      (d ++ [s]) ++ (name ++ 0 :: (List.range (strlen path)).map behind) := by
    simp [pathMemory, hpath]
  rw [hsplit]
  exact List.drop_left' (by simp)

/-- The first byte of a string that is not empty is not the terminator. -/
theorem getD_zero_ne_zero {name rest : List UInt8} (hne : name ≠ []) (hnul : 0 ∉ name) :
    (name ++ rest).getD 0 0 ≠ 0 := by
  cases name with
  | nil => exact absurd rfl hne
  | cons c name =>
    intro h0
    exact hnul (List.mem_cons.2 (.inl h0.symm))

/-- **A path with a separator** is copied once, from behind the last separator. -/
theorem copyName_of_sep (behind : Nat → UInt8) {d name : List UInt8} {s : UInt8} (hmax : strlen path ≤ 511)
    (hscan : scanBack path.bytes (strlen path) = some (d.length + 1))
    (hpath : path.bytes = d ++ s :: name) (hne : name ≠ []) :
    ∃ rest, copyName path behind =
      some (name ++ 0 :: rest, [⟨d.length + 1, strlen path - 1⟩]) := by
  have hlen : strlen path = d.length + (name.length + 1) := by simp [strlen, hpath]
  have hnul : 0 ∉ name := by
    intro h0
    exact path.nulFree (by simp [hpath, h0])
  obtain ⟨rest, hrest⟩ := take_terminated name ((List.range (strlen path)).map behind)
    (show name.length ≤ strlen path - 1 by omega) (by omega)
  have hstore : memcpyName (pathMemory path behind) (List.replicate 512 0)
      ⟨d.length + 1, strlen path - 1⟩ = some (name ++ 0 :: rest) := by
    rw [memcpyName, Copy.bytes, drop_pathMemory behind hpath, store_zeros, hrest]
    exact (List.length_take_le _ _).trans (show strlen path - 1 ≤ 512 by omega)
  refine ⟨rest, ?_⟩
  rw [copyName, sepCopy, hscan]
  simp only [Option.map_some, Option.toList_some, List.foldlM_cons, List.foldlM_nil, hstore,
    Option.bind_eq_bind, Option.bind_some, Option.pure_def, if_neg (getD_zero_ne_zero hne hnul)]

/-- **A path without a separator** is copied as a whole. -/
theorem copyName_of_no_sep (behind : Nat → UInt8) (hmin : 4 ≤ strlen path) (hmax : strlen path ≤ 511)
    (hscan : scanBack path.bytes (strlen path) = none) :
    ∃ rest, copyName path behind = some (path.bytes ++ 0 :: rest, [⟨0, strlen path⟩]) := by
  obtain ⟨rest, hrest⟩ := take_terminated path.bytes ((List.range (strlen path)).map behind)
    (show path.bytes.length ≤ strlen path from le_rfl) hmax
  have hstore : memcpyName (pathMemory path behind) (List.replicate 512 0) ⟨0, strlen path⟩ =
      some (path.bytes ++ 0 :: rest) := by
    rw [memcpyName, Copy.bytes, List.drop_zero, pathMemory, store_zeros, hrest]
    exact (List.length_take_le _ _).trans (show strlen path ≤ 512 by omega)
  refine ⟨rest, ?_⟩
  rw [copyName, sepCopy, hscan]
  simp only [Option.map_none, Option.toList_none, List.foldlM_nil, Option.pure_def,
    Option.bind_eq_bind, Option.bind_some, List.nil_append, hstore]
  exact if_pos rfl

/-- The copy from behind the last separator stays inside if that is one of the first two
bytes. -/
theorem inside_iff {d name : List UInt8} {s : UInt8} (hmin : 4 ≤ strlen path)
    (hpath : path.bytes = d ++ s :: name) (hs : isSep s = true)
    (hname : ∀ c ∈ name, isSep c = false) :
    (⟨d.length + 1, strlen path - 1⟩ : Copy).Inside path ↔
      ∀ c ∈ path.bytes.drop 2, isSep c = false := by
  have hiff : (⟨d.length + 1, strlen path - 1⟩ : Copy).Inside path ↔ d.length ≤ 1 := by
    show d.length + 1 + (strlen path - 1) ≤ strlen path + 1 ↔ d.length ≤ 1
    omega
  rw [hiff, hpath]
  constructor
  · intro hd c hc
    refine hname c ?_
    have hsuffix : (d ++ s :: name).drop 2 = name.drop (1 - d.length) := by
      rcases Nat.le_one_iff_eq_zero_or_eq_one.1 hd with h0 | h1
      · obtain rfl := List.length_eq_zero_iff.1 h0
        rfl
      · obtain ⟨x, rfl⟩ := List.length_eq_one_iff.1 h1
        rfl
    exact List.mem_of_mem_drop (hsuffix ▸ hc)
  · intro hall
    by_contra hd
    have hmem : s ∈ (d ++ s :: name).drop 2 := by
      rw [List.drop_append_of_le_length (by omega)]
      exact List.mem_append_right _ (by simp)
    rw [hall s hmem] at hs
    cases hs

/-- What follows from a copy of the base name into the buffer. -/
theorem name_of_copy {name rest : List UInt8} {block : Block} (hblock : block = name ++ 0 :: rest)
    (hbase : IsBaseName path.bytes name) (hne : name ≠ []) :
    IsBaseName path.bytes (cstr block).bytes ∧ cstr block = tmpname path.bytes := by
  have hnul : 0 ∉ name := by
    obtain ⟨-, dir, hdir, -⟩ := hbase
    intro h0
    exact path.nulFree (hdir ▸ List.mem_append_right dir h0)
  rw [hblock, hbase.tmpname_eq hne, cstr_terminated hnul, cstr_of_nulFree hnul]
  exact ⟨hbase, rfl⟩

/-- **The base name.**  For a path that `check_file_path` lets through and that does not end in
a separator, the name is the part behind the last separator, whatever stands behind the path.
The copies read nothing behind the terminator of the path exactly if no separator follows the
first two bytes. -/
theorem base_name_iff (path : CString) (behind : Nat → UInt8) (hmin : 4 ≤ strlen path)
    (hmax : strlen path ≤ 511) (hlast : path.bytes.getLast?.any isSep = false) :
    ∃ block copies, copyName path behind = some (block, copies) ∧
      (IsBaseName path.bytes (cstr block).bytes ∧ cstr block = tmpname path.bytes) ∧
      ((∀ c ∈ copies, c.Inside path) ↔ ∀ c ∈ path.bytes.drop 2, isSep c = false) := by
  cases hscan : scanBack path.bytes (strlen path) with
  | none =>
    have hno : ∀ c ∈ path.bytes.take path.bytes.length, isSep c = false :=
      scanBack_none le_rfl hscan
    rw [List.take_length] at hno
    have hne : path.bytes ≠ [] := List.ne_nil_of_length_pos (show 0 < strlen path by omega)
    obtain ⟨rest, hcopy⟩ := copyName_of_no_sep behind hmin hmax hscan
    refine ⟨_, _, hcopy, name_of_copy rfl ⟨hno, [], rfl, .inl rfl⟩ hne, ?_⟩
    -- the copy of the whole path stays inside, and there is no separator at all
    have hinside : (⟨0, strlen path⟩ : Copy).Inside path := by
      show 0 + strlen path ≤ strlen path + 1
      omega
    exact iff_of_true (by simpa using hinside) fun c hc => hno c (List.mem_of_mem_drop hc)
  | some i =>
    obtain ⟨d, s, name, hpath, hs, hname, rfl⟩ := scanBack_some le_rfl hscan
    rw [List.take_length] at hpath
    have hne : name ≠ [] := by
      rintro rfl
      rw [hpath, List.getLast?_append_cons, List.getLast?_singleton, Option.any_some, hs] at hlast
      cases hlast
    have hbase : IsBaseName path.bytes name :=
      ⟨hname, d ++ [s], by simp [hpath], .inr ⟨d, s, rfl, hs⟩⟩
    obtain ⟨rest, hcopy⟩ := copyName_of_sep behind hmax hscan hpath hne
    refine ⟨_, _, hcopy, name_of_copy rfl hbase hne, ?_⟩
    simpa using inside_iff hmin hpath hs hname

/-- `/a.lua` has its separator in front: `a.lua` is read with its terminator. -/
theorem base_name_iff_root :
    ∃ block copies, copyName (cstr (ascii "/a.lua")) (fun _ => 0xFF) = some (block, copies) ∧
      IsBaseName (ascii "/a.lua") (cstr block).bytes ∧ cstr block = tmpname (ascii "/a.lua") ∧
      ∀ c ∈ copies, c.Inside (cstr (ascii "/a.lua")) := by
  obtain ⟨block, copies, hcopy, ⟨hbase, hname⟩, hinside⟩ :=
    base_name_iff (cstr (ascii "/a.lua")) (fun _ => 0xFF) (by decide) (by decide) (by decide)
  have hbytes : (cstr (ascii "/a.lua")).bytes = ascii "/a.lua" := by decide
  rw [hbytes] at hbase hname hinside
  exact ⟨block, copies, hcopy, hbase, hname, hinside.2 (by decide +kernel)⟩

/-- **The copy leaves the path**: of `/d/a.lua`, eight bytes and a terminator, the bytes 3 to 9
are read, one more than there are. -/
theorem base_name_read_outside :
    (4 ≤ strlen (cstr (ascii "/d/a.lua")) ∧ strlen (cstr (ascii "/d/a.lua")) ≤ 511 ∧
      (ascii "/d/a.lua").getLast?.any isSep = false) ∧
    (∀ behind, ∃ block, copyName (cstr (ascii "/d/a.lua")) behind = some (block, [⟨3, 7⟩])) ∧
    ¬ (⟨3, 7⟩ : Copy).Inside (cstr (ascii "/d/a.lua")) := by
  refine ⟨by decide, ?_, by unfold Copy.Inside; decide⟩
  intro behind
  have hpath : (cstr (ascii "/d/a.lua")).bytes = ascii "/d" ++ 0x2F :: ascii "a.lua" := by decide
  obtain ⟨rest, hcopy⟩ := copyName_of_sep behind (by decide) (by decide) hpath (by decide)
  exact ⟨_, hcopy⟩

end LuatosPc.Cmd
