import LuatosPc.Cmd.Contents

/-!
# What is dumped and what is run

At the end of the command line the image is written to a file, if there is a path for it.  The
path is copied over the one before it, and the length is that of the image in `luadb_ctx`, also
where it is another image that is run.

* `dumpValues` — the paths that are given.
* `Overlaid` — what `luadb_dump_path` looks like after several values have been
  copied over each other; `Overlaid.cstr_eq_iff` — when it is the last of them.
* `parseArgs_spec` — what the loop over the arguments leaves; `finish_spec` — what is dumped then.
* `dump_is_what_runs` — when the file that is dumped is the image that is run, at the path that
  was given last.
-/

namespace LuatosPc.Cmd

open LuatosPc.Bytes LuatosPc.Luadb

variable (W : World)

/-- The value of a `--dump_luadb=` option. -/
def dumpValue (arg : CString) : Option (List UInt8) :=
  if isOpts "--dump_luadb=" arg.bytes then some (value "--dump_luadb=" arg.bytes) else none

/-- The values of all `--dump_luadb=` options. -/
def dumpValues (args : List CString) : List (List UInt8) := args.filterMap dumpValue

/-! ## The dump path -/

/-- What the buffer of 1024 bytes holds after the values `vs` have been copied to its
front one after the other: the last of them, and of the longer ones before it what
stands behind. -/
structure Overlaid (buf : Block) (vs : List (List UInt8)) : Prop where
  length : buf.length = 1024
  nonzero : ∀ i, buf.getD i 0 ≠ 0 ↔ ∃ v ∈ vs, i < v.length
  last : ∀ v, vs.getLast? = some v → v <+: buf

theorem overlaid_start : Overlaid (List.replicate 1024 0) [] := by
  have hzero : ∀ n i, (List.replicate n (0 : UInt8)).getD i 0 = 0 := by
    intro n i
    rw [List.getD_eq_getElem?_getD, List.getElem?_replicate]
    split <;> rfl
  refine ⟨List.length_replicate, ?_, ?_⟩
  · intro i
    rw [hzero]
    simp
  · intro v hv
    cases hv

/-- One more value. -/
theorem Overlaid.store {buf buf' : Block} {vs : List (List UInt8)} {v : List UInt8}
    (h : Overlaid buf vs) (hv : 0 ∉ v) (hs : Bytes.store buf 0 v = some buf') :
    Overlaid buf' (vs ++ [v]) := by
  have hle : 0 + v.length ≤ buf.length := by
    by_contra hlt
    have hne : v ≠ [] := by
      rintro rfl
      simp at hlt
    rw [store_of_lt hne (by omega)] at hs
    cases hs
  obtain rfl : overwrite buf 0 v = buf' := by
    rw [store_of_le hle] at hs
    exact Option.some.inj hs
  have heq : overwrite buf 0 v = v ++ buf.drop v.length := by simp [overwrite]
  refine ⟨(length_overwrite hle).trans h.length, ?_, ?_⟩
  · intro i
    rw [heq]
    by_cases hi : i < v.length
    · have hvi : v.getD i 0 ≠ 0 := by
        rw [List.getD_eq_getElem _ _ hi]
        exact fun h0 => hv (h0 ▸ List.getElem_mem hi)
      rw [List.getD_append _ _ _ _ hi]
      exact ⟨fun _ => ⟨v, by simp, hi⟩, fun _ => hvi⟩
    · -- behind the value stands what stood there before
      have hold : (v ++ buf.drop v.length).getD i 0 = buf.getD i 0 := by
        rw [List.getD_append_right _ _ _ _ (by omega), List.getD_eq_getElem?_getD,
          List.getElem?_drop, List.getD_eq_getElem?_getD]
        congr 2
        omega
      rw [hold, h.nonzero]
      constructor
      · rintro ⟨u, hu, hiu⟩
        exact ⟨u, List.mem_append_left _ hu, hiu⟩
      · rintro ⟨u, hu, hiu⟩
        rcases List.mem_append.1 hu with hu | hu
        · exact ⟨u, hu, hiu⟩
        · obtain rfl := List.mem_singleton.1 hu
          exact absurd hiu hi
  · intro u hu
    obtain rfl : v = u := by simpa using hu
    exact heq ▸ List.prefix_append _ _

/-- **When the path is the last value**: if no value before it is longer. -/
theorem Overlaid.cstr_eq_iff {buf : Block} {vs : List (List UInt8)} {v : List UInt8}
    (h : Overlaid buf vs) (hlast : vs.getLast? = some v) (hv : 0 ∉ v) :
    (cstr buf).bytes = v ↔ ∀ u ∈ vs, u.length ≤ v.length := by
  obtain ⟨rest, rfl⟩ := h.last v hlast
  have hpath : (cstr (v ++ rest)).bytes = v ++ rest.takeWhile (· ≠ 0) :=
    bytes_cstr_append hv rest
  have hrest : (v ++ rest).getD v.length 0 = rest.getD 0 0 := by
    rw [List.getD_append_right _ _ _ _ le_rfl, Nat.sub_self]
  have hend : rest.takeWhile (· ≠ 0) = [] ↔ rest.getD 0 0 = 0 := by
    cases rest with
    | nil => simp
    | cons c rest => by_cases hc : c = 0 <;> simp [hc]
  calc (cstr (v ++ rest)).bytes = v
      ↔ rest.getD 0 0 = 0 := by rw [hpath, List.append_right_eq_self, hend]
    _ ↔ ¬ ∃ u ∈ vs, v.length < u.length := by rw [← h.nonzero, hrest, not_not]
    _ ↔ ∀ u ∈ vs, u.length ≤ v.length := by simp

/-! ## The loop -/

/-- Two keys of which neither is the beginning of the other do not fit one argument. -/
theorem isOpts_eq_false {key : String} (key' : String) {arg : List UInt8} (h : isOpts key arg = true)
    (h₁ : ¬ ascii key <+: ascii key') (h₂ : ¬ ascii key' <+: ascii key) :
    isOpts key' arg = false := by
  by_contra hne
  have h' := isOpts_iff.1 (Bool.of_not_eq_false hne)
  rcases Nat.le_total (ascii key).length (ascii key').length with hle | hle
  · exact h₁ (List.prefix_of_prefix_length_le (isOpts_iff.1 h).2 h'.2 hle)
  · exact h₂ (List.prefix_of_prefix_length_le h'.2 (isOpts_iff.1 h).2 hle)

/-- An option for the dump path does nothing but set it. -/
theorem parseArg_dump {arg : List UInt8} (h : isOpts "--dump_luadb=" arg = true) :
    parseArg W arg = (do copyDumpPath (value "--dump_luadb=" arg); return true) := by
  rw [parseArg, isOpts_eq_false "--load_luadb=" h (by decide) (by decide),
    isOpts_eq_false "--ldb=" h (by decide) (by decide),
    isOpts_eq_false "--load_luatools=" h (by decide) (by decide),
    isOpts_eq_false "--llt=" h (by decide) (by decide),
    isOpts_eq_false "--mlua=" h (by decide) (by decide), h]
  rfl

theorem within_initMock (path : List UInt8) : Within Loads (initMock W path) := by
  constructor
  intro σ ret σ' hy
  replace hy := hy.of_get
  split at hy
  · cases hy
  · cases hy
    exact ⟨rfl, rfl, id⟩

/-- Every other argument leaves the dump path alone. -/
theorem within_parseArg {arg : List UInt8} (h : isOpts "--dump_luadb=" arg = false) :
    Within Loads (parseArg W arg) := by
  have hret : ∀ {m : C Int}, Within Loads m → Within Loads (do return (← m) = 0 : C Bool) := by
    intro m hm
    apply Within.bind hm
    intro ret
    exact .pure _
  have hset : ∀ {f : Globals → Globals}, (∀ σ, Loads σ (f σ)) →
      Within Loads (do modify f; return true : C Bool) := by
    intro f hf
    apply Within.bind (.modify hf)
    intro _
    exact .pure _
  unfold parseArg
  apply Within.ite (hret (within_luatCmdLoadLuadb W _))
  apply Within.ite (hret (within_luatCmdLoadLuadb W _))
  apply Within.ite (hret (within_luatCmdLoadLuatools W _))
  apply Within.ite (hret (within_luatCmdLoadLuatools W _))
  apply Within.ite (hret (within_initMock W _))
  rw [if_neg (Bool.not_eq_true _ ▸ h)]
  apply Within.ite
  · apply hset
    intro σ
    split
    · exact ⟨rfl, rfl, id⟩
    · split
      · exact ⟨rfl, rfl, id⟩
      · split
        · exact ⟨rfl, rfl, id⟩
        · exact ⟨rfl, rfl, id⟩
  apply Within.ite
  · apply hset
    intro σ
    exact ⟨rfl, rfl, id⟩
  apply Within.ite
  · apply hset
    intro σ
    exact ⟨rfl, rfl, id⟩
  apply Within.ite (.pure _)
  apply Within.bind (within_checkFilePath W _)
  intro found
  exact .pure _

/-- What holds in the loop, after dump paths `vs` have been set. -/
structure Parsing (vs : List (List UInt8)) (σ : Globals) : Prop where
  overlaid : Overlaid σ.luadbDumpPath vs
  hasImage : σ.HasImage
  dumped : σ.dumped = none

theorem dumpValue_nulFree {arg : CString} {v : List UInt8} (h : dumpValue arg = some v) : 0 ∉ v := by
  unfold dumpValue at h
  split at h
  · obtain rfl := Option.some.inj h
    exact fun h0 => arg.nulFree (List.mem_of_mem_drop h0)
  · cases h

/-- **One argument.** -/
theorem parseArg_spec {vs : List (List UInt8)} {σ σ' : Globals} {arg : CString} {b : Bool}
    (h : Parsing vs σ) (hy : Yields (parseArg W arg.bytes) σ b σ') :
    Parsing (vs ++ (dumpValue arg).toList) σ' := by
  by_cases hdump : isOpts "--dump_luadb=" arg.bytes = true
  · have hvalue : dumpValue arg = some (value "--dump_luadb=" arg.bytes) := if_pos hdump
    rw [parseArg_dump W hdump] at hy
    rw [hvalue, Option.toList_some]
    obtain ⟨_, σ₁, hcopy, hy⟩ := hy.of_bind
    cases hy
    replace hcopy := hcopy.of_get
    cases hs : store σ.luadbDumpPath 0 (value "--dump_luadb=" arg.bytes) with
    | none =>
      rw [hs] at hcopy
      cases hcopy
    | some buf =>
      rw [hs] at hcopy
      cases hcopy
      exact ⟨h.overlaid.store (dumpValue_nulFree hvalue) hs, h.hasImage, h.dumped⟩
  · have hvalue : dumpValue arg = none := if_neg hdump
    have hloads := (within_parseArg W (Bool.eq_false_of_not_eq_true hdump)).related hy
    rw [hvalue, Option.toList_none, List.append_nil]
    exact ⟨hloads.luadbDumpPath ▸ h.overlaid, hloads.hasImage h.hasImage,
      hloads.dumped.trans h.dumped⟩

/-- **The loop.** -/
theorem parseArgs_spec {args : List CString} {vs : List (List UInt8)} {σ σ' : Globals} {b : Bool}
    (h : Parsing vs σ) (hy : Yields (parseArgs W args) σ b σ') (hb : b = true) :
    Parsing (vs ++ dumpValues args) σ' := by
  induction args generalizing vs σ with
  | nil =>
    cases hy
    simpa [dumpValues] using h
  | cons arg args ih =>
    obtain ⟨ok, σ₁, harg, hrest⟩ := hy.of_bind
    have h₁ := parseArg_spec W h harg
    cases ok with
    | false =>
      cases hrest
      cases hb
    | true =>
      have h₂ := ih h₁ hrest
      have hvalues : dumpValues (arg :: args) = (dumpValue arg).toList ++ dumpValues args := by
        rw [dumpValues, List.filterMap_cons]
        cases dumpValue arg <;> rfl
      rwa [List.append_assoc, ← hvalues] at h₂

/-- Before the loop. -/
theorem initLuadb_spec {σ σ' : Globals} (hnull : σ.luadbCtx.dataptr = none)
    (hpath : Overlaid σ.luadbDumpPath []) (hdumped : σ.dumped = none)
    (hy : Yields (initLuadb W) σ () σ') : Parsing [] σ' := by
  obtain ⟨heap, σ₁, hmalloc, hy⟩ := hy.of_bind
  replace hy := hy.of_get
  cases hmalloc
  dsimp only at hy
  cases hheap : W.heap σ.asked with
  | none =>
    simp only [hheap, luatLuadb2Init_null hnull] at hy
    cases hy
  | some junk =>
    obtain ⟨ctx, hinit, hholds⟩ := init_holds junk hnull
    simp only [hheap, hinit] at hy
    cases hy
    exact ⟨hpath, ⟨[], hholds⟩, hdumped⟩

/-! ## The dump -/

theorem length_readMem (b : Block) (n : Nat) : (readMem W b n).length = n := by
  rw [readMem, List.length_append, List.length_take, List.length_map, List.length_range]
  omega

theorem readMem_of_le {b : Block} {n : Nat} (h : n ≤ b.length) : readMem W b n = b.take n := by
  rw [readMem, Nat.sub_eq_zero_of_le h, List.range_zero, List.map_nil, List.append_nil]

/-- A block is read as a whole if it has the right length. -/
theorem readMem_eq_self_iff {b : Block} {n : Nat} : readMem W b n = b ↔ b.length = n := by
  constructor
  · intro h
    rw [← length_readMem W b n, h]
  · rintro rfl
    rw [readMem_of_le W le_rfl, List.take_length]

/-- **What is written**, and when it is the image: always if the image was built, and if
it was loaded only if it happens to be as long as the one that was built. -/
theorem fwriteLuadb_spec {σ : Globals} {contents : List UInt8} (h : σ.HasImage)
    (hw : fwriteLuadb W σ = some contents) :
    ∃ image, σ.designated = some image ∧
      (contents = image ↔ ∀ b, σ.luadbPtr = .loaded b → b.length = σ.luadbCtx.offset) ∧
      (σ.luadbPtr = .built → ∃ fs : List File, image = header fs.length ++ fs.flatMap record) := by
  unfold fwriteLuadb at hw
  unfold Globals.designated
  cases hptr : σ.luadbPtr with
  | null =>
    rw [hptr] at hw
    cases hw
  | loaded b =>
    rw [hptr] at hw
    obtain rfl := Option.some.inj hw
    refine ⟨b, rfl, ?_, fun hbuilt => nomatch hbuilt⟩
    rw [readMem_eq_self_iff]
    constructor
    · intro hlen b' hb'
      cases hb'
      exact hlen
    · intro hall
      exact hall b rfl
  | built =>
    obtain ⟨fs, hfs⟩ := h
    obtain ⟨b, hb, -, htake⟩ := id hfs
    simp only [hptr, hb, Option.map_some, Option.some.injEq] at hw ⊢
    rw [readMem_of_le W (hfs.offset_le hb).2] at hw
    refine ⟨_, rfl, ?_, fun _ => ⟨fs, htake⟩⟩
    exact ⟨(fun _ b' hb' => nomatch hb'), fun _ => hw.symm⟩

/-- What follows the loop, if there is a path: the file is written. -/
theorem finish_spec {vs : List (List UInt8)} {v : List UInt8} {σ σ' : Globals} {e : End}
    (h : Parsing vs σ) (hlast : vs.getLast? = some v) (hv : v ≠ [])
    (hy : Yields (finish W) σ e σ') (he : e = .ret 0 ∨ e = .exit 0) :
    ∃ contents, fwriteLuadb W σ = some contents ∧
      σ' = { σ with dumped := some ((cstr σ.luadbDumpPath).bytes, contents) } := by
  have hset : σ.luadbDumpPath.getD 0 0 ≠ 0 :=
    (h.overlaid.nonzero 0).2 ⟨v, List.mem_of_getLast? hlast, List.length_pos_iff.2 hv⟩
  replace hy := hy.of_get
  split at hy
  · cases hy
  obtain ⟨opened, σ₁, hdump, hy⟩ := hy.of_bind
  replace hdump := hdump.of_get
  rw [if_neg hset] at hdump
  by_cases hnul : 0 ∉ σ.luadbDumpPath
  · rw [if_pos hnul] at hdump
    cases hdump
  rw [if_neg hnul] at hdump
  dsimp only at hdump
  by_cases hopen : W.writable (cstr σ.luadbDumpPath).bytes = true
  · rw [if_pos hopen] at hdump
    cases hw : fwriteLuadb W σ with
    | none =>
      rw [hw] at hdump
      cases hdump
    | some contents =>
      rw [hw] at hdump
      cases hdump
      cases hy
      exact ⟨contents, rfl, rfl⟩
  · rw [if_neg hopen] at hdump
    cases hdump
    cases hy
    rcases he with he | he <;> cases he

theorem dumpValue_ne_nil {arg : CString} {v : List UInt8} (h : dumpValue arg = some v) : v ≠ [] := by
  unfold dumpValue at h
  split at h
  next hopt =>
    obtain rfl := Option.some.inj h
    exact value_ne_nil hopt
  next => cases h

/-- **What is dumped and what is run.**  If `luat_cmd_parse` succeeds and `v` is the last
dump path, then a file is written.  It is written at `v` if and only if no dump path
before is longer, and it is the image that will be mounted if and only if that image was
not loaded, or is as long as the one in `luadb_ctx`.  If memory is never short, that is: the plan
of the arguments ends with a built image, which is then the plan's, or with a loaded one that is
as long as the plan's. -/
theorem dump_is_what_runs {args : List CString} {e : End} {σ : Globals} {v : List UInt8}
    (h : Yields (luatCmdParse W args) .start e σ) (he : e = .ret 0 ∨ e = .exit 0)
    (hv : (dumpValues args).getLast? = some v) :
    ∃ path contents image, σ.dumped = some (path, contents) ∧ σ.designated = some image ∧
      (path = v ↔ ∀ u ∈ dumpValues args, u.length ≤ v.length) ∧
      (contents = image ↔ ∀ b, σ.luadbPtr = .loaded b → b.length = σ.luadbCtx.offset) ∧
      (σ.luadbPtr = .built → ∃ fs : List File, image = header fs.length ++ fs.flatMap record) ∧
      ((∀ n, (W.heap n).isSome = true) →
        (contents = image ↔ ∀ b, (arguments W args .start).2.ptr = .loaded b →
          b.length = (arguments W args .start).2.image.length) ∧
        ((arguments W args .start).2.ptr = .built → image = (arguments W args .start).2.image)) := by
  obtain ⟨arg, -, harg⟩ := List.mem_filterMap.1 (List.mem_of_getLast? hv)
  have hne : args ≠ [] := by
    rintro rfl
    cases hv
  have hplan := fun hheap => parse_shows (W := W) hheap hne h
  rw [luatCmdParse, if_neg hne] at h
  obtain ⟨_, σ₁, hinit, h⟩ := h.of_bind
  obtain ⟨ok, σ₂, hargs, h⟩ := h.of_bind
  cases ok with
  | false =>
    cases h
    rcases he with he | he <;> cases he
  | true =>
    have hparsed := parseArgs_spec W (initLuadb_spec W rfl overlaid_start rfl hinit) hargs rfl
    rw [List.nil_append] at hparsed
    obtain ⟨contents, hw, rfl⟩ := finish_spec W hparsed hv (dumpValue_ne_nil harg) h he
    obtain ⟨image, himage, hiff, hbuilt⟩ := fwriteLuadb_spec W hparsed.hasImage hw
    refine ⟨_, contents, image, rfl, himage,
      hparsed.overlaid.cstr_eq_iff hv (dumpValue_nulFree harg), hiff, hbuilt, fun hheap => ?_⟩
    obtain ⟨-, hptr, hholds⟩ := hplan hheap
    obtain ⟨hoff, himg⟩ := holds_image hholds
    rw [← hptr, ← hoff]
    refine ⟨hiff, fun hb => ?_⟩
    rw [Globals.designated, hb] at himage
    exact himg image himage

/-- A directory with a file and an image of 30 bytes. -/
def sampleWorld : World where
  file path :=
    if path = ascii "a.bin" then some [1, 2, 3]
    else if path = ascii "image" then some (List.replicate 30 9)
    else none
  dir _ := none
  windows := false
  heap _ := some fun _ => 0
  luac _ _ _ := .raises
  mockMade := true
  report _ := true
  writable _ := true
  behind _ := 0

/-- A file is loaded and dumped. -/
def dumpFile : List CString :=
  [⟨ascii "--dump_luadb=out", by decide⟩, ⟨ascii "a.bin", by decide⟩]

theorem dump_is_what_runs_dumpFile :
    ∃ σ image, Yields (luatCmdParse sampleWorld dumpFile) .start (.ret 0) σ ∧
      σ.designated = some image ∧ σ.dumped = some (ascii "out", image) := by
  have hrun : (luatCmdParse sampleWorld dumpFile .start).toOption.map
      (fun p => (p.1, p.2.luadbPtr)) = some (.ret 0, .built) := by decide +kernel
  obtain ⟨e, σ, hy, hf⟩ := exists_yields hrun
  obtain ⟨rfl, hptr⟩ := Prod.mk.inj hf
  obtain ⟨path, contents, image, hdumped, himage, hpath, hcontents, -⟩ :=
    dump_is_what_runs sampleWorld hy (.inl rfl) (v := ascii "out") (by decide)
  obtain rfl : path = ascii "out" := hpath.2 (by decide)
  obtain rfl : contents = image := hcontents.2 fun b hb => by
    rw [show σ.luadbPtr = .built from hptr] at hb
    cases hb
  exact ⟨σ, contents, hy, himage, hdumped⟩

/-- An image is loaded and dumped. -/
def dumpImage : List CString :=
  [⟨ascii "--dump_luadb=out", by decide⟩, ⟨ascii "--ldb=image", by decide⟩]

/-- A dump path is replaced by a shorter one. -/
def dumpShorter : List CString :=
  [⟨ascii "--dump_luadb=longer", by decide⟩, ⟨ascii "--dump_luadb=out", by decide⟩,
    ⟨ascii "a.bin", by decide⟩]

/-- Of an image that was loaded only 24 bytes are dumped; and the end of a longer path
stays behind a shorter one. -/
theorem dump_is_not_what_runs :
    (luatCmdParse sampleWorld dumpImage .start).toOption.map
        (fun p => (p.1, p.2.dumped, p.2.designated)) =
      some (.ret 0, some (ascii "out", List.replicate 24 9), some (List.replicate 30 9)) ∧
    (luatCmdParse sampleWorld dumpShorter .start).toOption.map
        (fun p => (p.1, p.2.dumped.map Prod.fst)) = some (.ret 0, some (ascii "outger")) := by
  decide +kernel

end LuatosPc.Cmd
