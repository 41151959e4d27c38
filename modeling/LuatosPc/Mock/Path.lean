import LuatosPc.Base.Bytes

/-!
# The path of the mock script

`luat_mock_init` copies the path of the script to `mock_file_path`, and `load_mock_lua_file`
copies the name in it to `tmpname`, with lengths that are never compared with the sizes of the
buffers.

* `PathBuffer` — `mock_file_path`; `PathBuffer.copy` — how it is set.
* `copyTail`, `copyName` — the copies to `tmpname`.
* `NameFits` — the paths for which they stay inside of both buffers (`copyName_isSome_iff`).
-/

namespace LuatosPc.Mock

open LuatosPc.Bytes

/-- `mock_file_path`: 1024 bytes, in which a string ends. -/
structure PathBuffer where
  bytes : Block
  length_eq : bytes.length = 1024
  terminated : 0 ∈ bytes

/-- The path in it. -/
def PathBuffer.path (b : PathBuffer) : CString := cstr b.bytes

/-- The buffer before anything is copied to it. -/
def PathBuffer.zeros : PathBuffer where
  bytes := List.replicate 1024 0
  length_eq := List.length_replicate
  terminated := List.mem_replicate.2 ⟨by decide, rfl⟩

/-- `memcpy(mock_file_path, path, strlen(path) + 1)`. -/
def PathBuffer.copy (b : PathBuffer) (path : CString) : Option PathBuffer :=
  if h : 0 + (path.bytes ++ [0]).length ≤ b.bytes.length then
    some {
      bytes := overwrite b.bytes 0 (path.bytes ++ [0])
      length_eq := (length_overwrite h).trans b.length_eq
      terminated := by simp [overwrite] }
  else none

/-- The characters that end a directory in a path. -/
def isSlash (c : UInt8) : Bool := c = 0x2F || c = 0x5C

/-- The loop of `load_mock_lua_file` down from index `i`: the bytes behind the last slash are
copied to `tmpname`, and as many more as make one less than the path has. -/
def copyTail (buf tmpname : Block) : Nat → Option Block
  | 0 => some tmpname
  | i + 1 =>
    if isSlash (buf.getD i 0) then do
      store tmpname 0 (← fetch buf (i + 1) (strlen (cstr buf) - 1))
    else copyTail buf tmpname i

/-- `tmpname` of `load_mock_lua_file`, which has 512 bytes. -/
def copyName (buf : Block) : Option Block := do
  let tmpname ← copyTail buf (List.replicate 512 0) (strlen (cstr buf))
  if tmpname.getD 0 0 = 0 then store tmpname 0 (← fetch buf 0 (strlen (cstr buf)))
  else return tmpname

/-! ## When the copies stay inside -/

theorem PathBuffer.bytes_eq (b : PathBuffer) : ∃ rest, b.bytes = b.path.bytes ++ 0 :: rest := by
  have hsplit := List.takeWhile_append_dropWhile (p := (· ≠ 0)) (l := b.bytes)
  cases hdrop : b.bytes.dropWhile (· ≠ 0) with
  | nil =>
    have hall := List.dropWhile_eq_nil_iff.1 hdrop 0 b.terminated
    simp at hall
  | cons c rest =>
    have hc : c = 0 := by
      have hhead := List.head_dropWhile_not (p := (· ≠ 0)) (l := b.bytes) (by rw [hdrop]; simp)
      simp only [hdrop, List.head_cons] at hhead
      simpa using hhead
    refine ⟨rest, ?_⟩
    rw [hdrop, hc] at hsplit
    exact hsplit.symm

theorem PathBuffer.path_of_copy {b b' : PathBuffer} {path : CString} (h : b.copy path = some b') :
    b'.path = path := by
  unfold PathBuffer.copy at h
  split at h
  · obtain rfl := Option.some.inj h
    show cstr (overwrite b.bytes 0 (path.bytes ++ [0])) = path
    rw [overwrite, List.take_zero, List.nil_append, List.append_assoc]
    exact cstr_terminated path.nulFree _
  · cases h

/-- The path fits `tmpname`: a path of 513 bytes just does if only a name without its slash has
to be copied. -/
def NameFits (path : CString) : Prop :=
  strlen path ≤ 512 ∨
    strlen path = 513 ∧ path.bytes.any isSlash = true ∧ path.bytes.getLast?.any isSlash = false

instance (path : CString) : Decidable (NameFits path) := inferInstanceAs (Decidable (_ ∨ _))

/-- The loop finds no slash, or the last one. -/
theorem copyTail_cases (buf tmpname : Block) (i : Nat) :
    (copyTail buf tmpname i = some tmpname ∧ ∀ j < i, isSlash (buf.getD j 0) = false) ∨
      ∃ j < i, isSlash (buf.getD j 0) = true ∧
        (∀ j', j < j' → j' < i → isSlash (buf.getD j' 0) = false) ∧
        copyTail buf tmpname i =
          (fetch buf (j + 1) (strlen (cstr buf) - 1)).bind (store tmpname 0) := by
  induction i with
  | zero => exact .inl ⟨rfl, fun j hj => absurd hj (Nat.not_lt_zero j)⟩
  | succ i ih =>
    cases hi : isSlash (buf.getD i 0) with
    | true =>
      refine .inr ⟨i, Nat.lt_succ_self i, hi, ?_, if_pos hi⟩
      intro j' hlow hhigh
      omega
    | false =>
      have hnext : copyTail buf tmpname (i + 1) = copyTail buf tmpname i := by
        rw [copyTail, hi]
        rfl
      have hmore : ∀ j' < i + 1, j' < i ∨ j' = i := fun j' h => by omega
      rw [hnext]
      rcases ih with ⟨hcopy, hnone⟩ | ⟨j, hj, hslash, hnone, hcopy⟩
      · refine .inl ⟨hcopy, fun j' hj' => ?_⟩
        rcases hmore j' hj' with h | rfl
        · exact hnone j' h
        · exact hi
      · refine .inr ⟨j, by omega, hslash, fun j' hlow hhigh => ?_, hcopy⟩
        rcases hmore j' hhigh with h | rfl
        · exact hnone j' hlow h
        · exact hi

/-- The bytes of the path in the buffer. -/
theorem PathBuffer.getD_of_lt (b : PathBuffer) {i : Nat} (h : i < strlen b.path) :
    b.bytes.getD i 0 = b.path.bytes.getD i 0 := by
  obtain ⟨rest, hbytes⟩ := b.bytes_eq
  rw [hbytes, List.getD_append _ _ _ _ h]

theorem PathBuffer.getD_strlen (b : PathBuffer) : b.bytes.getD (strlen b.path) 0 = 0 := by
  obtain ⟨rest, hbytes⟩ := b.bytes_eq
  rw [hbytes, strlen, List.getD_append_right _ _ _ _ le_rfl, Nat.sub_self]
  rfl

/-- Whether the path ends with a slash. -/
theorem PathBuffer.getLast?_any (b : PathBuffer) (h : 0 < strlen b.path) :
    b.path.bytes.getLast?.any isSlash = isSlash (b.bytes.getD (strlen b.path - 1) 0) := by
  have hlast : strlen b.path - 1 < b.path.bytes.length := Nat.sub_one_lt_of_lt h
  rw [b.getD_of_lt hlast, List.getLast?_eq_getElem?, ← strlen, List.getD_eq_getElem _ _ hlast,
    List.getElem?_eq_getElem hlast, Option.any_some]

/-- Whether there is a slash in it. -/
theorem PathBuffer.any_iff (b : PathBuffer) :
    b.path.bytes.any isSlash = true ↔
      ∃ i < strlen b.path, isSlash (b.bytes.getD i 0) = true := by
  rw [List.any_eq_true]
  constructor
  · rintro ⟨c, hc, hslash⟩
    obtain ⟨i, hi, rfl⟩ := List.mem_iff_getElem.1 hc
    exact ⟨i, hi, by rwa [b.getD_of_lt hi, List.getD_eq_getElem _ _ hi]⟩
  · rintro ⟨i, hi, hslash⟩
    rw [b.getD_of_lt hi, List.getD_eq_getElem _ _ hi] at hslash
    exact ⟨_, List.getElem_mem hi, hslash⟩

theorem PathBuffer.strlen_lt (b : PathBuffer) : strlen b.path < 1024 := by
  obtain ⟨rest, hbytes⟩ := b.bytes_eq
  have hlen := congrArg List.length hbytes
  rw [b.length_eq, List.length_append, List.length_cons] at hlen
  rw [strlen]
  omega

/-- The first copy of a row of bytes to `tmpname`. -/
theorem store_fetch_isSome_iff {buf tmpname : Block} {i n : Nat} (hn : 0 < n) :
    ((fetch buf i n).bind (store tmpname 0)).isSome = true ↔
      i + n ≤ buf.length ∧ n ≤ tmpname.length := by
  by_cases hfetch : i + n ≤ buf.length
  · have hsome := fetch_of_le hfetch
    have hlen := length_of_fetch hsome
    rw [hsome, Option.bind_some, store_isSome_iff (List.ne_nil_of_length_pos (by omega)), hlen,
      Nat.zero_add, and_iff_right hfetch]
  · rw [fetch, if_neg hfetch]
    simp [hfetch]

/-- What the first byte of `tmpname` is after such a copy. -/
theorem getD_zero_of_store_fetch {buf tmpname tmpname' : Block} {i n : Nat} (hn : 0 < n)
    (h : (fetch buf i n).bind (store tmpname 0) = some tmpname') :
    tmpname'.getD 0 0 = buf.getD i 0 ∧ tmpname'.length = tmpname.length := by
  have hsome : ((fetch buf i n).bind (store tmpname 0)).isSome = true := by rw [h]; rfl
  obtain ⟨hfetch, hstore⟩ := (store_fetch_isSome_iff hn).1 hsome
  have hbytes := fetch_of_le hfetch
  have hlen := length_of_fetch hbytes
  have hfits : 0 + ((buf.drop i).take n).length ≤ tmpname.length := by omega
  rw [hbytes, Option.bind_some, store_of_le hfits] at h
  obtain rfl := Option.some.inj h
  refine ⟨?_, length_overwrite hfits⟩
  rw [overwrite, List.take_zero, List.nil_append, List.getD_append _ _ _ _ (by omega),
    List.getD_eq_getElem?_getD, List.getElem?_take_of_lt hn, List.getElem?_drop, Nat.add_zero,
    List.getD_eq_getElem?_getD]

/-- The copy of the whole path, if `tmpname` is still empty. -/
theorem PathBuffer.copyWhole_isSome_iff (b : PathBuffer) {tmpname : Block}
    (h : tmpname.length = 512) :
    ((fetch b.bytes 0 (strlen b.path)).bind (store tmpname 0)).isSome = true ↔
      strlen b.path ≤ 512 := by
  have hlt := b.strlen_lt
  have hlen := b.length_eq
  rcases Nat.eq_zero_or_pos (strlen b.path) with h0 | hpos
  · rw [h0, fetch_of_le (by omega), List.take_zero]
    simp [store]
  · rw [store_fetch_isSome_iff hpos, h]
    omega

/-- The copy of what stands behind a slash at `j`, and then the rest of the path's length. -/
theorem PathBuffer.copyBehind_spec (b : PathBuffer) {j : Nat} (hj : j < strlen b.path)
    {tmpname : Option Block} (h : copyTail b.bytes (List.replicate 512 0) (strlen b.path) = tmpname)
    (hcopy : copyTail b.bytes (List.replicate 512 0) (strlen b.path) =
      (fetch b.bytes (j + 1) (strlen b.path - 1)).bind (store (List.replicate 512 0) 0)) :
    (tmpname.isSome = true ↔ j + strlen b.path ≤ 1024 ∧ strlen b.path ≤ 513) ∧
      ∀ t, tmpname = some t → t.length = 512 ∧ (t.getD 0 0 = 0 ↔ j + 1 = strlen b.path) := by
  have hzeros : (List.replicate 512 (0 : UInt8)).length = 512 := List.length_replicate
  have hlen := b.length_eq
  rw [hcopy] at h
  rcases Nat.eq_zero_or_pos (strlen b.path - 1) with h0 | hpos
  · -- the path is a slash, and nothing is copied
    obtain rfl : some (List.replicate 512 0) = tmpname := by
      rw [← h, h0, fetch_of_le (by omega), List.take_zero]
      rfl
    refine ⟨by simp only [Option.isSome_some, true_iff]; omega, ?_⟩
    rintro t ht
    obtain rfl := Option.some.inj ht
    refine ⟨hzeros, iff_of_true rfl (by omega)⟩
  · have hiff := @store_fetch_isSome_iff b.bytes (List.replicate 512 0) (j + 1) _ hpos
    rw [h, hzeros, hlen] at hiff
    refine ⟨hiff.trans (by omega), ?_⟩
    rintro t rfl
    obtain ⟨hfirst, htlen⟩ := getD_zero_of_store_fetch hpos h
    refine ⟨htlen.trans hzeros, ?_⟩
    rw [hfirst]
    constructor
    · intro hzero
      by_contra hne
      have hin : j + 1 < b.path.bytes.length := Nat.lt_of_le_of_ne hj hne
      rw [b.getD_of_lt hin, List.getD_eq_getElem _ _ hin] at hzero
      exact b.path.nulFree (hzero ▸ List.getElem_mem hin)
    · intro hend
      rw [hend]
      exact b.getD_strlen

/-- **When the copies stay inside** of the buffers. -/
theorem copyName_isSome_iff (b : PathBuffer) :
    (copyName b.bytes).isSome = true ↔ NameFits b.path := by
  have hlt := b.strlen_lt
  have hname : copyName b.bytes =
      (copyTail b.bytes (List.replicate 512 0) (strlen b.path)).bind fun t =>
        if t.getD 0 0 = 0 then (fetch b.bytes 0 (strlen b.path)).bind (store t 0)
        else some t := rfl
  rw [hname, NameFits, b.any_iff]
  rcases copyTail_cases b.bytes (List.replicate 512 0) (strlen b.path) with
    ⟨hcopy, hnone⟩ | ⟨j, hj, hslash, hbehind, hcopy⟩
  · have hempty : (List.replicate 512 (0 : UInt8)).getD 0 0 = 0 := rfl
    rw [hcopy, Option.bind_some, if_pos hempty, b.copyWhole_isSome_iff List.length_replicate]
    refine ⟨.inl, fun h => h.elim id ?_⟩
    rintro ⟨-, ⟨i, hi, hi'⟩, -⟩
    rw [hnone i hi] at hi'
    cases hi'
  · -- the path ends with a slash exactly if the last one stands at its end
    have hlast : isSlash (b.bytes.getD (strlen b.path - 1) 0) = false ↔ j + 1 ≠ strlen b.path := by
      constructor
      · intro hno hend
        rw [← hend, Nat.add_sub_cancel, hslash] at hno
        cases hno
      · intro hne
        exact hbehind _ (by omega) (by omega)
    have hany : ∃ i < strlen b.path, isSlash (b.bytes.getD i 0) = true := ⟨j, hj, hslash⟩
    rw [b.getLast?_any (by omega), hlast, and_iff_right hany]
    generalize htmp : copyTail b.bytes (List.replicate 512 0) (strlen b.path) = tmpname
    obtain ⟨hfits, hfirst⟩ := b.copyBehind_spec hj htmp hcopy
    cases tmpname with
    | none =>
      simp only [Option.isSome_none, Bool.false_eq_true, false_iff] at hfits
      simp only [Option.bind_none, Option.isSome_none, Bool.false_eq_true, false_iff]
      omega
    | some t =>
      obtain ⟨hlen, hzero⟩ := hfirst t rfl
      have hle := hfits.1 rfl
      by_cases hend : j + 1 = strlen b.path
      · rw [Option.bind_some, if_pos (hzero.2 hend), b.copyWhole_isSome_iff hlen]
        omega
      · rw [Option.bind_some, if_neg (mt hzero.1 hend)]
        simp only [Option.isSome_some, true_iff]
        omega

end LuatosPc.Mock
