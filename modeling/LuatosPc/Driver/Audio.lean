import LuatosPc.Base.Ledger
import LuatosPc.Driver.Ffmpeg

/-!
# The audio driver and its libraries

The model of `luat_audio_play_multi_files`, `luat_audio_play_file` and `luat_audio_stop_raw`
of `luat_audio_pc.c` and of the loading of the FFmpeg libraries in `ffmpeg.c`, as it is built
for Windows: the libraries are loaded by the first call that plays, and freed by a stop.

* `Lib`, `State` — the libraries, the handles to them and how often each one is loaded.
* `luatLoadFfmpegDlls`, `luatUnloadFfmpegDlls` — the functions of the source; `Loading` — which
  steps of a load succeed.
* `luatAudioPlayMultiFiles`, `luatAudioPlayFile`, `luatAudioStopRaw`.
* `Act`, `step`, `machine` — any sequence of calls; `Moves` — all that one of them can do.
* `luatLoadFfmpegDlls_eq`, `luatUnloadFfmpegDlls_eq` — what becomes of the libraries.
* `audio_done_once` — what holds after any calls: FFmpeg is only used while it is loaded, and
  every call that plays posts one message.
* `audio_stop_twice` — which libraries the second of two stops frees though they are not loaded.
-/

namespace LuatosPc.Driver.Audio

open Brackets Ffmpeg

inductive Lib
  | avutil
  | swresample
  | avcodec
  | avformat
  deriving DecidableEq

/-- `luat_audio_dll_enable`, whether `h_avutil` and the others are set, how often each library
has been loaded and not freed, what FFmpeg has handed out, and the messages that have been
posted. -/
@[ext]
structure State where
  enable : Bool
  handle : Lib → Bool
  refs : Lib → Nat
  session : Session Call Handle
  posted : Nat

/-- Which steps of a load succeed: `GetModuleFileNameA`, the two places to find `avutil` in,
the other libraries, and all of the `GetProcAddress`. -/
structure Loading where
  exePath : Bool
  avutilRelease : Bool
  avutilExe : Bool
  swresample : Bool
  avcodec : Bool
  avformat : Bool
  functions : Bool
  deriving DecidableEq

/-- `LoadLibraryA`: the library is loaded once more, or the handle is `NULL`. -/
def loadLibrary (s : State) (lib : Lib) (ok : Bool) : State :=
  { s with
    handle := Function.update s.handle lib ok
    refs := if ok then Function.update s.refs lib (s.refs lib + 1) else s.refs }

/-- `luat_load_ffmpeg_dlls`. -/
def luatLoadFfmpegDlls (s : State) (l : Loading) : State × Int :=
  if !l.exePath then (s, -1)
  else
    let s := loadLibrary s .avutil l.avutilRelease
    let s := if l.avutilRelease then s else loadLibrary s .avutil l.avutilExe
    if !(l.avutilRelease || l.avutilExe) then (s, -1)
    else
      let s := loadLibrary s .swresample l.swresample
      if !l.swresample then (s, -1)
      else
        let s := loadLibrary s .avcodec l.avcodec
        if !l.avcodec then (s, -1)
        else
          let s := loadLibrary s .avformat l.avformat
          if !l.avformat then (s, -1)
          else if !l.functions then (s, -1)
          else (s, 0)

/-- `if (h) FreeLibrary(h)`; the libraries that are freed without being loaded are noted. -/
def freeLibrary (p : State × List Lib) (lib : Lib) : State × List Lib :=
  if p.1.handle lib then
    if p.1.refs lib = 0 then (p.1, p.2 ++ [lib])
    else ({ p.1 with refs := Function.update p.1.refs lib (p.1.refs lib - 1) }, p.2)
  else p

/-- `luat_unload_ffmpeg_dlls`: the handles stay as they are. -/
def luatUnloadFfmpegDlls (s : State) : State × List Lib :=
  [Lib.avformat, Lib.avcodec, Lib.swresample, Lib.avutil].foldl freeLibrary (s, [])

/-- `LUAT_MULTIMEDIA_CB_AUDIO_DECODE_START` and the others. -/
inductive Event
  | decodeStart
  | outputStart
  | needData
  | ttsInit
  | ttsDone
  | audioDone

/-- `luat_audio_event_cb`: the number of messages that it posts. -/
def luatAudioEventCb : Event → Nat
  | .audioDone => 1
  | _ => 0

/-- What is to be played: `UDATA_TYPE_OPAQUE` with the path of a file, or something else. -/
inductive Info
  | path (file : File)
  | other

section Functions

-- `LUAT_USE_GUI`
variable (gui : Bool)

/-- The loop of `luat_audio_play_multi_files`: its result and the messages it posts. -/
def playLoop (errorStop : Bool) : List Info → Play (Int × Nat)
  | [] => return (0, luatAudioEventCb .audioDone)
  | .other :: rest =>
    if errorStop then return (-1, luatAudioEventCb .audioDone) else playLoop errorStop rest
  | .path file :: rest => do
    let ret ← luatFfmpegPlayFile gui file
    if ret ≠ 0 ∧ errorStop then return (-1, luatAudioEventCb .audioDone)
    else playLoop errorStop rest

/-- `luat_audio_play_multi_files`; the error is a call that FFmpeg does not allow. -/
def luatAudioPlayMultiFiles (s : State) (infos : List Info) (errorStop : Bool) (l : Loading) :
    Except Call (State × Int) := do
  let (s, ret) := if s.enable then (s, 0) else luatLoadFfmpegDlls s l
  if ret = 0 then do
    let s := { s with enable := true }
    let ((ret, posts), session) ← playLoop gui errorStop infos s.session
    return ({ s with session, posted := s.posted + posts }, ret)
  else return (s, -1)

/-- `luat_audio_play_file`. -/
def luatAudioPlayFile (s : State) (file : File) (l : Loading) : Except Call (State × Int) :=
  luatAudioPlayMultiFiles gui s [.path file] true l

/-- `luat_audio_stop_raw`, with the libraries that it frees though they are not loaded. -/
def luatAudioStopRaw (s : State) : State × List Lib :=
  let (s, stale) := luatUnloadFfmpegDlls s
  ({ s with enable := false }, stale)

/-- One call. -/
inductive Act
  | playFiles (infos : List Info) (errorStop : Bool) (l : Loading)
  | playFile (file : File) (l : Loading)
  | stop

/-- What a call gives. -/
inductive Out
  | ret (r : Int)
  | freed (stale : List Lib)
  deriving DecidableEq

def step (s : State) : Act → Option (State × Out)
  | .playFiles infos errorStop l =>
    (luatAudioPlayMultiFiles gui s infos errorStop l).toOption.map fun p => (p.1, .ret p.2)
  | .playFile file l => (luatAudioPlayFile gui s file l).toOption.map fun p => (p.1, .ret p.2)
  | .stop =>
    let (s, stale) := luatAudioStopRaw s
    some (s, .freed stale)

/-- Any sequence of calls. -/
def machine : Machine State Act Out :=
  ⟨⟨false, fun _ => false, fun _ => 0, ⟨[], []⟩, 0⟩, step gui⟩

abbrev Trans := Transition State Act Out

end Functions

/-! ## What is played -/

/-- The entry is a file, and every step of playing it succeeds. -/
def Info.good (gui : Bool) : Info → Bool
  | .path file => file.playable gui
  | .other => false

/-- The bytes that it gives. -/
def Info.sound : Info → List Int
  | .path file => pcm file.packets
  | .other => []

/-- The entries that are played: all good ones, or only those before the first bad one. -/
def played (gui errorStop : Bool) (infos : List Info) : List Info :=
  if errorStop then infos.takeWhile (Info.good gui) else infos.filter (Info.good gui)

/-- What is heard of them. -/
def sound (gui errorStop : Bool) (infos : List Info) : List Int :=
  if gui then (played gui errorStop infos).flatMap Info.sound else []

/-- What the call returns. -/
def result (gui errorStop : Bool) (infos : List Info) : Int :=
  if errorStop && !infos.all (Info.good gui) then -1 else 0

section Calls

variable {gui : Bool}

/-- Playing gives back what it takes, and posts one message. -/
theorem leads_playLoop (errorStop : Bool) (infos : List Info) (H : List Handle) :
    Leads queued (playLoop gui errorStop infos) H (result gui errorStop infos, 1) H
      (sound gui errorStop infos) := by
  induction infos with
  | nil => cases gui <;> cases errorStop <;> exact Leads.pure _ _
  | cons info infos ih =>
    cases info with
    | other =>
      cases errorStop with
      | true => cases gui <;> exact Leads.pure _ _
      | false => exact ih
    | path file =>
      have hplay := ends_luatFfmpegPlayFile gui file H
      cases hok : file.playable gui with
      | false =>
        rw [hok] at hplay
        refine hplay.quietly ?_
        cases errorStop with
        | true =>
          have hresult : result gui true (.path file :: infos) = -1 := by
            simp [result, Info.good, hok]
          have hsound : sound gui true (.path file :: infos) = [] := by
            simp [sound, played, Info.good, hok]
          rw [hresult, hsound]
          exact Leads.pure _ _
        | false =>
          have hsound : sound gui false (.path file :: infos) = sound gui false infos := by
            simp [sound, played, Info.good, hok]
          rw [hsound]
          exact ih
      | true =>
        rw [hok] at hplay
        have hresult : result gui errorStop (.path file :: infos) = result gui errorStop infos := by
          simp [result, Info.good, hok]
        have hsound : sound gui errorStop (.path file :: infos) =
            (if gui then pcm file.packets else []) ++ sound gui errorStop infos := by
          cases gui <;> cases errorStop <;> simp [sound, played, Info.good, Info.sound, hok]
        rw [hresult, hsound]
        exact hplay.bind (k := fun ret => if ret ≠ 0 ∧ errorStop = true then
          return (-1, luatAudioEventCb .audioDone) else playLoop gui errorStop infos) ih

end Calls

/-! ## Loading and freeing -/

/-- Does a load come as far as asking for the library? -/
def Loading.tries (l : Loading) : Lib → Bool
  | .avutil => l.exePath
  | .swresample => l.exePath && (l.avutilRelease || l.avutilExe)
  | .avcodec => l.exePath && (l.avutilRelease || l.avutilExe) && l.swresample
  | .avformat => l.exePath && (l.avutilRelease || l.avutilExe) && l.swresample && l.avcodec

/-- Does it get the library? -/
def Loading.gets (l : Loading) (lib : Lib) : Bool :=
  l.tries lib && match lib with
    | .avutil => l.avutilRelease || l.avutilExe
    | .swresample => l.swresample
    | .avcodec => l.avcodec
    | .avformat => l.avformat

/-- Does it get everything? -/
def Loading.complete (l : Loading) : Bool := l.gets .avformat && l.functions

theorem Loading.gets_of_complete {l : Loading} (h : l.complete = true) (lib : Lib) :
    l.gets lib = true := by
  simp only [Loading.complete, Loading.gets, Loading.tries, Bool.and_eq_true] at h
  cases lib <;> simp [Loading.gets, Loading.tries, h]

/-- The state after a load. -/
def State.load (s : State) (l : Loading) : State :=
  { s with
    handle := fun lib => if l.tries lib then l.gets lib else s.handle lib
    refs := fun lib => s.refs lib + if l.gets lib then 1 else 0 }

/-- Two states with the same libraries. -/
theorem State.ext_libs {s t : State} (henable : s.enable = t.enable)
    (hhandle : ∀ lib, s.handle lib = t.handle lib) (hrefs : ∀ lib, s.refs lib = t.refs lib)
    (hsession : s.session = t.session) (hposted : s.posted = t.posted) : s = t :=
  State.ext henable (funext hhandle) (funext hrefs) hsession hposted

/-- A load that fails half way keeps what it has got. -/
theorem luatLoadFfmpegDlls_eq (s : State) (l : Loading) :
    luatLoadFfmpegDlls s l = (s.load l, if l.complete then 0 else -1) := by
  obtain ⟨exePath, release, exe, swresample, avcodec, avformat, functions⟩ := l
  cases exePath with
  | false =>
    exact Prod.ext (State.ext_libs rfl (by rintro ⟨⟩ <;> rfl) (by rintro ⟨⟩ <;> rfl) rfl rfl) rfl
  | true =>
    cases release <;> cases exe <;> cases swresample <;> cases avcodec <;> cases avformat <;>
      cases functions <;>
      exact Prod.ext (State.ext_libs rfl (by rintro ⟨⟩ <;> rfl) (by rintro ⟨⟩ <;> rfl) rfl rfl) rfl

/-- The state after a stop. -/
def State.unload (s : State) : State :=
  { s with refs := fun lib => if s.handle lib then s.refs lib - 1 else s.refs lib }

/-- The libraries that a stop frees though they are not loaded. -/
def State.stale (s : State) : List Lib :=
  [Lib.avformat, Lib.avcodec, Lib.swresample, Lib.avutil].filter fun lib =>
    s.handle lib && s.refs lib == 0

/-- One reference to a library less, if there is a handle for it. -/
def State.dropRef (s : State) (lib : Lib) : State :=
  { s with refs := Function.update s.refs lib (if s.handle lib then s.refs lib - 1 else s.refs lib) }

theorem freeLibrary_eq (p : State × List Lib) (lib : Lib) :
    freeLibrary p lib =
      (p.1.dropRef lib, p.2 ++ if p.1.handle lib && p.1.refs lib == 0 then [lib] else []) := by
  rw [freeLibrary, State.dropRef]
  cases hh : p.1.handle lib with
  | false => simp
  | true =>
    by_cases hr : p.1.refs lib = 0
    · have hsame : Function.update p.1.refs lib 0 = p.1.refs := by
        rw [← hr, Function.update_eq_self]
      simp [hr, hsame]
    · simp [hr]

/-- A stop frees every library that there is a handle for. -/
theorem luatUnloadFfmpegDlls_eq (s : State) :
    luatUnloadFfmpegDlls s = (s.unload, s.stale) := by
  simp only [luatUnloadFfmpegDlls, List.foldl_cons, List.foldl_nil, freeLibrary_eq]
  refine Prod.ext (State.ext_libs rfl (fun _ => rfl) ?_ rfl rfl) ?_
  · rintro ⟨⟩ <;> simp [State.unload, State.dropRef, Function.update]
  · -- a library is looked at before its own reference is dropped
    simp only [State.stale, State.dropRef, Function.update, List.filter_cons, List.filter_nil,
      reduceCtorEq, dite_false, List.nil_append]
    split <;> split <;> split <;> split <;> rfl

theorem mem_stale_iff {s : State} {lib : Lib} :
    lib ∈ s.stale ↔ s.handle lib = true ∧ s.refs lib = 0 := by
  cases lib <;> simp [State.stale]

/-! ## One call -/

/-- What a call that plays is asked to play, and what a load would do. -/
def Act.request : Act → Option (List Info × Bool × Loading)
  | .playFiles infos errorStop l => some (infos, errorStop, l)
  | .playFile file l => some ([.path file], true, l)
  | .stop => none

/-- The state in which the files are played. -/
def State.ready (s : State) (l : Loading) : State := if s.enable then s else s.load l

/-- The state after them, where `more` are the calls of FFmpeg. -/
def State.afterPlay (s : State) (l : Loading) (more : List Call) : State :=
  { s.ready l with
    enable := true
    session := ⟨s.session.held, s.session.log ++ more⟩
    posted := s.posted + 1 }

/-- All that a call can do. -/
inductive Moves (gui : Bool) (s : State) : Act → State → Out → Prop
  | refused {a : Act} {infos : List Info} {errorStop : Bool} {l : Loading} :
      a.request = some (infos, errorStop, l) → s.enable = false → l.complete = false →
      Moves gui s a (s.load l) (.ret (-1))
  | played {a : Act} {infos : List Info} {errorStop : Bool} {l : Loading} {more : List Call} :
      a.request = some (infos, errorStop, l) → (s.enable || l.complete) = true →
      more.filterMap queued = sound gui errorStop infos →
      Moves gui s a (s.afterPlay l more) (.ret (result gui errorStop infos))
  | stopped : Moves gui s .stop { s.unload with enable := false } (.freed s.stale)

section Steps

variable {gui : Bool} {s s' : State} {a : Act} {o : Out}

theorem luatAudioPlayMultiFiles_moves {infos : List Info} {errorStop : Bool} {l : Loading}
    (hreq : a.request = some (infos, errorStop, l)) :
    ∃ s' r, luatAudioPlayMultiFiles gui s infos errorStop l = .ok (s', r) ∧
      Moves gui s a s' (.ret r) := by
  obtain ⟨more, hy, hmore⟩ := @leads_playLoop gui errorStop infos s.session.held s.session.log
  -- the loop, whatever the libraries
  have hloop : playLoop gui errorStop infos s.session =
      .ok ((result gui errorStop infos, 1), ⟨s.session.held, s.session.log ++ more⟩) := hy
  cases he : s.enable with
  | true =>
    refine ⟨_, _, ?_, .played hreq (by rw [he]; rfl) hmore⟩
    simp only [luatAudioPlayMultiFiles, he, if_true, hloop, State.afterPlay, State.ready]
    rfl
  | false =>
    cases hc : l.complete with
    | true =>
      refine ⟨_, _, ?_, .played hreq (by rw [hc, Bool.or_true]) hmore⟩
      have hsession : (s.load l).session = s.session := rfl
      simp only [luatAudioPlayMultiFiles, he, Bool.false_eq_true, if_false,
        luatLoadFfmpegDlls_eq, hc, if_true, hsession, hloop, State.afterPlay,
        State.ready]
      rfl
    | false =>
      refine ⟨_, _, ?_, .refused hreq he hc⟩
      simp only [luatAudioPlayMultiFiles, he, Bool.false_eq_true, if_false,
        luatLoadFfmpegDlls_eq, hc]
      rfl

theorem step_stop (s : State) :
    step gui s .stop = some ({ s.unload with enable := false }, .freed s.stale) := by
  simp only [step, luatAudioStopRaw, luatUnloadFfmpegDlls_eq]

/-- Every call comes back, and does one of these things. -/
theorem step_moves (s : State) (a : Act) :
    ∃ s' o, step gui s a = some (s', o) ∧ Moves gui s a s' o := by
  cases a with
  | playFiles infos errorStop l =>
    obtain ⟨s', r, hs', hmoves⟩ :=
      @luatAudioPlayMultiFiles_moves gui s (.playFiles infos errorStop l) _ _ _ rfl
    exact ⟨s', .ret r, by simp only [step, hs']; rfl, hmoves⟩
  | playFile file l =>
    obtain ⟨s', r, hs', hmoves⟩ :=
      @luatAudioPlayMultiFiles_moves gui s (.playFile file l) _ _ _ rfl
    exact ⟨s', .ret r, by simp only [step, luatAudioPlayFile, hs']; rfl, hmoves⟩
  | stop => exact ⟨_, _, step_stop s, .stopped⟩

theorem moves_of_step (h : step gui s a = some (s', o)) : Moves gui s a s' o := by
  obtain ⟨t, o', ht, hmoves⟩ := @step_moves gui s a
  rw [h] at ht
  cases ht
  exact hmoves

end Steps

/-! ## Whole runs -/

/-- What is heard of a call: a call after which the libraries are not loaded plays nothing. -/
def heard (gui : Bool) (e : Trans) : List Int :=
  match e.act.request with
  | some (infos, errorStop, _) => if e.dst.enable then sound gui errorStop infos else []
  | none => []

/-- A call that plays, with the libraries loaded. -/
def plays (e : Trans) : Bool := e.act.request.isSome && e.dst.enable

/-- How often a call loads a library. -/
def fetched (lib : Lib) (e : Trans) : Nat :=
  match e.act.request with
  | some (_, _, l) => if !e.src.enable && l.gets lib then 1 else 0
  | none => 0

/-- How often a call frees a library that is loaded. -/
def freed (lib : Lib) (e : Trans) : Nat :=
  match e.out with
  | .freed stale => if e.src.handle lib && !stale.contains lib then 1 else 0
  | .ret _ => 0

/-- What holds after every call. -/
structure Sound (gui : Bool) (tr : List Trans) (s : State) : Prop where
  held_eq : s.session.held = []
  heard_eq : s.session.log.filterMap queued = tr.flatMap (heard gui)
  posted_eq : s.posted = (tr.filter plays).length
  loaded : s.enable = true → ∀ lib, s.handle lib = true ∧ 0 < s.refs lib

section Runs

variable {gui : Bool} {tr : List Trans} {s s' : State} {a : Act} {o : Out}

theorem loaded_ready {l : Loading} (h : (s.enable || l.complete) = true)
    (hs : s.enable = true → ∀ lib, s.handle lib = true ∧ 0 < s.refs lib) (lib : Lib) :
    (s.ready l).handle lib = true ∧ 0 < (s.ready l).refs lib := by
  rw [State.ready]
  cases he : s.enable with
  | true => exact hs he lib
  | false =>
    rw [he, Bool.false_or] at h
    have hgets := Loading.gets_of_complete h lib
    have htries : l.tries lib = true := (Bool.and_eq_true _ _ ▸ hgets : _ ∧ _).1
    simp [State.load, hgets, htries]

theorem Sound.snoc (h : Sound gui tr s) (hs : Moves gui s a s' o) :
    Sound gui (tr ++ [⟨s, a, o, s'⟩]) s' := by
  cases hs with
  | @refused _ _ _ l hreq he hc =>
    have hquiet : heard gui ⟨s, a, .ret (-1), s.load l⟩ = [] := by
      simp [heard, hreq, State.load, he]
    have hnot : plays ⟨s, a, .ret (-1), s.load l⟩ = false := by simp [plays, State.load, he]
    refine ⟨h.held_eq, ?_, ?_, ?_⟩
    · rw [List.flatMap_append, List.flatMap_singleton, hquiet, List.append_nil]
      exact h.heard_eq
    · rw [List.filter_append, List.filter_singleton, hnot, cond_false, List.append_nil]
      exact h.posted_eq
    · intro henable
      exact absurd henable (by simp [State.load, he])
  | @played _ infos errorStop l more hreq hready hmore =>
    have hheard : heard gui ⟨s, a, .ret (result gui errorStop infos), s.afterPlay l more⟩ =
        sound gui errorStop infos := by simp [heard, hreq, State.afterPlay]
    have hplays : plays ⟨s, a, .ret (result gui errorStop infos), s.afterPlay l more⟩ = true := by
      simp [plays, hreq, State.afterPlay]
    refine ⟨h.held_eq, ?_, ?_, ?_⟩
    · show (s.session.log ++ more).filterMap queued = _
      rw [List.filterMap_append, h.heard_eq, hmore, List.flatMap_append, List.flatMap_singleton,
        hheard]
    · show s.posted + 1 = _
      rw [List.filter_append, List.filter_singleton, hplays, cond_true, List.length_append,
        h.posted_eq, List.length_singleton]
    · intro _
      exact loaded_ready hready h.loaded
  | stopped =>
    refine ⟨h.held_eq, ?_, ?_, ?_⟩
    · rw [List.flatMap_append, List.flatMap_singleton]
      exact h.heard_eq.trans (List.append_nil _).symm
    · rw [List.filter_append]
      exact h.posted_eq.trans (congrArg List.length (List.append_nil _).symm)
    · intro henable
      cases henable

/-- A call that makes calls of FFmpeg leaves the libraries enabled. -/
theorem Moves.enable_of_log_ne (h : Moves gui s a s' o) (hlog : s'.session.log ≠ s.session.log) :
    s'.enable = true := by
  cases h with
  | refused => exact absurd rfl hlog
  | played => rfl
  | stopped => exact absurd rfl hlog

theorem sound_run (h : Run (machine gui) tr s) : Sound gui tr s := by
  refine h.history_invariant (I := Sound gui) (C := fun _ _ => True) (fun _ _ _ _ => trivial)
    ⟨rfl, rfl, rfl, fun henable => by cases henable⟩ ?_
  intro tr s a s' o _ hsound hs _
  exact hsound.snoc (moves_of_step hs)

/-- The books of a library. -/
theorem refs_run (h : Run (machine gui) tr s) (lib : Lib) :
    (tr.map (freed lib)).sum + s.refs lib = (tr.map (fetched lib)).sum := by
  refine h.ledger (w := fun s => s.refs lib) rfl ?_
  intro s a s' o hs
  have hmoves : Moves gui s a s' o := moves_of_step hs
  cases hmoves with
  | refused hreq he hc => simp [freed, fetched, hreq, he, State.load]
  | @played _ _ _ l _ hreq hready hmore =>
    cases he : s.enable <;> simp [freed, fetched, hreq, he, State.afterPlay, State.ready, State.load]
  | stopped =>
    have hmem := @mem_stale_iff s lib
    cases hh : s.handle lib with
    | false => simp [freed, fetched, Act.request, hh, State.unload]
    | true =>
      by_cases hr : s.refs lib = 0
      · simp [freed, fetched, Act.request, hh, hr, hmem, State.unload]
      · simp [freed, fetched, Act.request, hh, hr, hmem, State.unload]
        omega

/-- **Every call that plays ends with one message.**  After any calls, whatever fails: the next
call comes back, as the sound device plays what it has; FFmpeg has everything back; what the
device has taken is the sound of the calls, in order; there is one message for every call that
found the libraries loaded or has loaded them; FFmpeg is called only while all four libraries are
loaded; and every library has been loaded as often as it has been freed and is loaded still. -/
theorem audio_done_once (h : Run (machine gui) tr s) :
    (∀ a, (step gui s a).isSome) ∧ s.session.held = [] ∧
      s.session.log.filterMap queued = tr.flatMap (heard gui) ∧
      s.posted = (tr.filter plays).length ∧
      (∀ e ∈ tr, e.dst.session.log ≠ e.src.session.log → ∀ lib, 0 < e.dst.refs lib) ∧
      ∀ lib, (tr.map (freed lib)).sum + s.refs lib = (tr.map (fetched lib)).sum := by
  have hsound := sound_run h
  refine ⟨?_, hsound.held_eq, hsound.heard_eq, hsound.posted_eq, ?_, refs_run h⟩
  · intro a
    obtain ⟨s', o, hs', -⟩ := @step_moves gui s a
    rw [hs']
    rfl
  · intro e he hlog
    obtain ⟨pre, post, rfl⟩ := List.append_of_mem he
    obtain ⟨hpre, hstep⟩ := h.split rfl
    have hsrc := sound_run hpre
    have hdst := hsrc.snoc (moves_of_step hstep)
    have henable := (moves_of_step hstep).enable_of_log_ne hlog
    exact fun lib => (hdst.loaded henable lib).2

/-- **The second of two stops frees libraries that are not loaded any more**, as the handles
stay set: after any calls that leave the driver playing, the first stop frees only what is
loaded, and the one after it also what had been loaded only once more than it had been freed.
A library that a load which failed later on had fetched before is spared. -/
theorem audio_stop_twice (h : Run (machine gui) tr s) (hs : s.enable = true) :
    ∃ s₁ s₂ stale, step gui s .stop = some (s₁, .freed []) ∧
      step gui s₁ .stop = some (s₂, .freed stale) ∧
      ∀ lib, lib ∈ stale ↔ (tr.map (fetched lib)).sum = (tr.map (freed lib)).sum + 1 := by
  have hloaded := (sound_run h).loaded hs
  have hnone : s.stale = [] := by
    refine List.eq_nil_iff_forall_not_mem.2 ?_
    intro lib hmem
    have hzero := (mem_stale_iff.1 hmem).2
    have hpos := (hloaded lib).2
    omega
  refine ⟨_, _, _, by rw [step_stop, hnone], step_stop _, ?_⟩
  intro lib
  obtain ⟨hhandle, hpos⟩ := hloaded lib
  have hbooks := refs_run h lib
  have hsecond : lib ∈ State.stale { s.unload with enable := false } ↔ s.refs lib = 1 := by
    rw [mem_stale_iff]
    simp only [State.unload, hhandle, if_true, true_and]
    omega
  rw [hsecond]
  omega

end Runs

/-- A load in which all steps succeed, and one in which `avcodec` is missing. -/
def wholeLoading : Loading := ⟨true, true, true, true, true, true, true⟩

def cutLoading : Loading := ⟨true, false, true, true, false, true, true⟩

/-- A file of one packet with two frames, the second of which the sound device does not take. -/
def shortFile : File where
  openInput := true
  findStreamInfo := true
  findBestStream := true
  findDecoder := true
  allocContext := true
  parametersToContext := true
  channelLayout := false
  open2 := true
  swrAllocSetOpts := true
  swrInit := true
  packetAlloc := true
  frameAlloc := true
  sdlInit := true
  openAudioDevice := true
  packets := [⟨true, true, [⟨8, true, 8, by decide, true⟩, ⟨8, true, 4, by decide, false⟩]⟩]
  queued := 2

/-- A play that fails for want of a library, and one that does not. -/
def retryActs : List Act :=
  [.playFile shortFile cutLoading, .playFiles [.other, .path shortFile] false wholeLoading]

theorem audio_done_once_retry :
    ((machine true).exec (machine true).init retryActs).isSome = true ∧
      ((machine true).stateOf retryActs).posted = 1 ∧
      ((machine true).stateOf retryActs).session.log.filterMap queued = [32] := by
  have hexec : ((machine true).exec (machine true).init retryActs).isSome = true := by
    decide +kernel
  obtain ⟨-, -, hheard, hposted, -⟩ := audio_done_once (Machine.run_exec hexec)
  refine ⟨hexec, ?_, ?_⟩
  · rw [hposted]
    decide +kernel
  · rw [hheard]
    decide +kernel

theorem audio_stop_twice_retry :
    ((machine true).stateOf retryActs).enable = true ∧
      ∃ s₁ s₂ stale, step true ((machine true).stateOf retryActs) .stop = some (s₁, .freed []) ∧
        step true s₁ .stop = some (s₂, .freed stale) ∧ Lib.avformat ∈ stale ∧
        Lib.avutil ∉ stale := by
  have hexec : ((machine true).exec (machine true).init retryActs).isSome = true := by
    decide +kernel
  have henable : ((machine true).stateOf retryActs).enable = true := by decide +kernel
  obtain ⟨s₁, s₂, stale, h₁, h₂, hstale⟩ := audio_stop_twice (Machine.run_exec hexec) henable
  refine ⟨henable, s₁, s₂, stale, h₁, h₂, ?_, ?_⟩
  · rw [hstale]
    decide +kernel
  · rw [hstale]
    decide +kernel

end LuatosPc.Driver.Audio
