import LuatosPc.Base.Brackets

/-!
# Playing a file

The model of `luat_ffmpeg_play_file` of `ffmpeg.c`: a file is opened, its audio stream is
decoded packet by packet and frame by frame, every frame is resampled, and what comes out is
queued to the sound device.  Every step may fail, and every failure has its own cleanup.

* `Handle`, `Call`, `library` — what FFmpeg and SDL hand out, want and take back.
* `Frame`, `Packet`, `File` — what they answer for a file.
* `luatFfmpegPlayFile` — the function of the source, with `openCodec`, `openResampler`,
  `playDevice` for its parts and `receiveFrames`, `readPackets`, `waitQueue` for its loops.
* `leads_receiveFrames`, `leads_readPackets` — the loops give back what they take.
* `play_file_balanced` — so does the function, whatever fails.
-/

namespace LuatosPc.Driver.Ffmpeg

open Brackets

/-- What has to be given back. -/
inductive Handle
  | format
  | codec
  | resampler
  | packet
  | frame
  | audio
  | device
  /-- A buffer with room for some samples of two channels, of two bytes each. -/
  | samples (room : Nat)
  deriving DecidableEq

/-- Is there room for so many bytes? -/
def Handle.holds (bytes : Int) : Handle → Bool
  | .samples room => bytes ≤ 4 * room
  | _ => false

/-- The calls, with their success where they hand out something, and for the functions that
accept `NULL` whether there is something to free. -/
inductive Call
  | openInput (ok : Bool)
  | closeInput
  | findStreamInfo
  | findBestStream
  | findDecoder
  | allocContext (ok : Bool)
  | freeContext
  | parametersToContext
  | getDefaultChannelLayout
  | open2
  | swrAllocSetOpts (ok : Bool)
  | swrFree
  | swrInit
  | packetAlloc (ok : Bool)
  | packetFree (set : Bool)
  | frameAlloc (ok : Bool)
  | frameFree (set : Bool)
  | sdlInit (ok : Bool)
  | sdlQuit
  | openAudioDevice (ok : Bool)
  | closeAudioDevice
  | pauseAudioDevice
  | getQueuedAudioSize
  | readFrame
  | sendPacket
  | receiveFrame
  | swrGetDelay
  | samplesAlloc (room : Nat) (ok : Bool)
  | swrConvert (room : Nat)
  | queueAudio (bytes : Int) (ok : Bool)
  | sdlGetError
  | freeSamples (room : Nat)
  | packetUnref
  deriving DecidableEq

/-- A handle that is there on success. -/
def onSuccess (ok : Bool) (h : Handle) : Option Handle := if ok then some h else none

def takes : Call → Option Handle
  | .openInput ok => onSuccess ok .format
  | .allocContext ok => onSuccess ok .codec
  | .swrAllocSetOpts ok => onSuccess ok .resampler
  | .packetAlloc ok => onSuccess ok .packet
  | .frameAlloc ok => onSuccess ok .frame
  | .sdlInit ok => onSuccess ok .audio
  | .openAudioDevice ok => onSuccess ok .device
  | .samplesAlloc room ok => onSuccess ok (.samples room)
  | _ => none

def gives : Call → Option Handle
  | .closeInput => some .format
  | .freeContext => some .codec
  | .swrFree => some .resampler
  | .packetFree set => onSuccess set .packet
  | .frameFree set => onSuccess set .frame
  | .sdlQuit => some .audio
  | .closeAudioDevice => some .device
  | .freeSamples room => some (.samples room)
  | _ => none

def needs : Call → List (Handle → Bool)
  | .findStreamInfo | .findBestStream | .findDecoder => [(· == .format)]
  | .parametersToContext => [(· == .codec), (· == .format)]
  | .getDefaultChannelLayout | .open2 => [(· == .codec)]
  | .swrAllocSetOpts _ => [(· == .codec)]
  | .swrInit => [(· == .resampler)]
  | .openAudioDevice _ => [(· == .audio)]
  | .pauseAudioDevice | .getQueuedAudioSize => [(· == .device)]
  | .readFrame => [(· == .format), (· == .packet)]
  | .sendPacket => [(· == .codec), (· == .packet)]
  | .receiveFrame => [(· == .codec), (· == .frame)]
  | .swrGetDelay => [(· == .resampler), (· == .frame)]
  | .swrConvert room => [(· == .resampler), (· == .frame), (· == .samples room)]
  | .queueAudio bytes _ => [(· == .device), Handle.holds bytes]
  | .packetUnref => [(· == .packet)]
  | _ => []

/-- FFmpeg and SDL. -/
def library : Contract Call Handle := ⟨needs, gives, takes⟩

abbrev Play (α : Type) := Prog Call (Session Call Handle) α

/-! ## What is played -/

/-- A decoded frame, and what becomes of it: `resampled_nb_samples`, for which room is asked;
whether there is memory for it; the result of `swr_convert`, which is not more than there is room
for; and whether the sound device takes what came out. -/
structure Frame where
  room : Nat
  allocated : Bool
  converted : Int
  converted_le : converted ≤ room
  queued : Bool

/-- A packet: whether it is of the audio stream, whether the decoder takes it, and the frames
that the decoder then has. -/
structure Packet where
  isAudio : Bool
  sent : Bool
  frames : List Frame

/-- What the libraries answer for a file: which steps succeed, whether the stream has a
channel layout, the packets, and how often the sound device still has something queued when it
is asked at the end.  The device plays what it has been given, so it is empty at last: that is
assumed here, and the loop that waits for it ends by it. -/
structure File where
  openInput : Bool
  findStreamInfo : Bool
  findBestStream : Bool
  findDecoder : Bool
  allocContext : Bool
  parametersToContext : Bool
  channelLayout : Bool
  open2 : Bool
  swrAllocSetOpts : Bool
  swrInit : Bool
  packetAlloc : Bool
  frameAlloc : Bool
  sdlInit : Bool
  openAudioDevice : Bool
  packets : List Packet
  queued : Nat

/-! ## The function of the source -/

section Functions

-- `LUAT_USE_GUI`
variable (gui : Bool)

def callIf (c : Bool) (x : Call) : Play Unit := if c then call library x else pure ()

/-- `SDL_QueueAudio` for what came out of a frame.  A failure is printed, and that is all. -/
def queueFrame (f : Frame) : Play Unit := do
  callIf gui (.queueAudio (f.converted * 2 * 2) f.queued)
  callIf (gui && !f.queued) .sdlGetError

/-- `while (avcodec_receive_frame(codec_ctx, frame) == 0)`. -/
def receiveFrames : List Frame → Play Unit
  | [] => call library .receiveFrame
  | f :: fs => do
    calls library [.receiveFrame, .swrGetDelay, .samplesAlloc f.room f.allocated]
    if f.allocated then do
      call library (.swrConvert f.room)
      if f.converted < 0 then call library (.freeSamples f.room)
      else do
        queueFrame gui f
        call library (.freeSamples f.room)
        receiveFrames fs
    else pure ()

/-- `while (av_read_frame(fmt_ctx, pkt) >= 0)`: a packet that the decoder does not take ends
the loop. -/
def readPackets : List Packet → Play Unit
  | [] => call library .readFrame
  | p :: ps => do
    call library .readFrame
    if p.isAudio then do
      call library .sendPacket
      if p.sent then do
        receiveFrames gui p.frames
        call library .packetUnref
        readPackets ps
      else pure ()
    else do
      call library .packetUnref
      readPackets ps

/-- `while (queued > 0)`. -/
def waitQueue : Nat → Play Unit
  | 0 => call library .getQueuedAudioSize
  | n + 1 => do
    call library .getQueuedAudioSize
    waitQueue n

/-- The packet, the frame and the contexts are freed. -/
def freeAll (packet frame : Bool) : Play Unit :=
  calls library [.frameFree frame, .packetFree packet, .swrFree, .freeContext, .closeInput]

/-- From `SDL_Init` on. -/
def playDevice (file : File) : Play Int := do
  if gui then do
    call library (.sdlInit file.sdlInit)
    if file.sdlInit then do
      call library (.openAudioDevice file.openAudioDevice)
      if file.openAudioDevice then do
        call library .pauseAudioDevice
        readPackets gui file.packets
        waitQueue file.queued
        calls library [.closeAudioDevice, .sdlQuit]
        freeAll true true
        return 0
      else do
        call library .sdlQuit
        freeAll true true
        return -1
    else do
      freeAll true true
      return -1
  else do
    readPackets gui file.packets
    freeAll true true
    return 0

/-- From `swr_alloc_set_opts` on. -/
def openResampler (file : File) : Play Int := do
  call library (.swrAllocSetOpts file.swrAllocSetOpts)
  if file.swrAllocSetOpts then do
    call library .swrInit
    if file.swrInit then do
      calls library [.packetAlloc file.packetAlloc, .frameAlloc file.frameAlloc]
      if file.packetAlloc && file.frameAlloc then playDevice gui file
      else do
        freeAll file.packetAlloc file.frameAlloc
        return -1
    else do
      calls library [.swrFree, .freeContext, .closeInput]
      return -1
  else do
    calls library [.freeContext, .closeInput]
    return -1

/-- From `avcodec_alloc_context3` on. -/
def openCodec (file : File) : Play Int := do
  call library (.allocContext file.allocContext)
  if file.allocContext then do
    call library .parametersToContext
    if file.parametersToContext then do
      callIf (!file.channelLayout) .getDefaultChannelLayout
      call library .open2
      if file.open2 then openResampler gui file
      else do
        calls library [.freeContext, .closeInput]
        return -1
    else do
      calls library [.freeContext, .closeInput]
      return -1
  else do
    call library .closeInput
    return -1

/-- `luat_ffmpeg_play_file`. -/
def luatFfmpegPlayFile (file : File) : Play Int := do
  call library (.openInput file.openInput)
  if file.openInput then do
    call library .findStreamInfo
    if file.findStreamInfo then do
      call library .findBestStream
      if file.findBestStream then do
        call library .findDecoder
        if file.findDecoder then openCodec gui file
        else do
          call library .closeInput
          return -1
      else do
        call library .closeInput
        return -1
    else do
      call library .closeInput
      return -1
  else return -1

end Functions

/-- The sound device can be opened, where there is one. -/
def File.deviceOk (file : File) (gui : Bool) : Bool :=
  !gui || file.sdlInit && file.openAudioDevice

/-- So can what is needed from the resampler on. -/
def File.resamplerOk (file : File) (gui : Bool) : Bool :=
  file.swrAllocSetOpts && (file.swrInit && (file.packetAlloc && (file.frameAlloc &&
    file.deviceOk gui)))

/-- And from the decoder on. -/
def File.codecOk (file : File) (gui : Bool) : Bool :=
  file.allocContext && (file.parametersToContext && (file.open2 && file.resamplerOk gui))

/-- Every step succeeds. -/
def File.playable (file : File) (gui : Bool) : Bool :=
  file.openInput && (file.findStreamInfo && (file.findBestStream && (file.findDecoder &&
    file.codecOk gui)))

/-! ## What is heard -/

/-- What the sound device takes. -/
def queued : Call → Option Int
  | .queueAudio bytes true => some bytes
  | _ => none

/-- A frame that can be resampled. -/
def Frame.good (f : Frame) : Bool := f.allocated && decide (0 ≤ f.converted)

/-- The bytes that frames give: those before the first one that cannot be resampled, if the sound
device takes them. -/
def framesPcm (fs : List Frame) : List Int :=
  ((fs.takeWhile Frame.good).filter Frame.queued).map fun f => 4 * f.converted

/-- The bytes that a packet gives. -/
def Packet.pcm (p : Packet) : List Int := framesPcm p.frames

/-- A packet that does not end the playing. -/
def Packet.good (p : Packet) : Bool := !p.isAudio || p.sent

/-- The bytes that a file gives. -/
def pcm (ps : List Packet) : List Int :=
  ((ps.takeWhile Packet.good).filter Packet.isAudio).flatMap Packet.pcm

/-! ## What is held -/

/-- The handles before the sound device is opened, over those that were held before. -/
abbrev opened (H : List Handle) : List Handle :=
  .frame :: .packet :: .resampler :: .codec :: .format :: H

/-- The handles during the loop. -/
abbrev playing (gui : Bool) (H : List Handle) : List Handle :=
  if gui then .device :: .audio :: opened H else opened H

theorem leads_callIf {c : Bool} {x : Call} {H : List Handle}
    (h : c = true → library.effect x H = some H) :
    Leads queued (callIf c x) H () H (if c then (queued x).toList else []) := by
  cases c with
  | false => exact Leads.pure () H
  | true => exact Leads.call (h rfl)

/-- The bytes that are queued are bytes of the buffer. -/
theorem effect_queueAudio {bytes : Int} {room : Nat} (h : bytes ≤ 4 * room) (ok : Bool)
    (H : List Handle) :
    library.effect (.queueAudio bytes ok) (.samples room :: .device :: H) =
      some (.samples room :: .device :: H) := by
  have hroom : Handle.holds bytes (.samples room) = true := by simpa [Handle.holds] using h
  simp [Contract.effect, library, needs, gives, takes, hroom]

/-- One frame takes a buffer and gives it back. -/
theorem effects_samples (gui : Bool) (H : List Handle) (room : Nat) :
    library.effects [.receiveFrame, .swrGetDelay, .samplesAlloc room true] (playing gui H) =
        some (.samples room :: playing gui H) ∧
      library.effect (.swrConvert room) (.samples room :: playing gui H) =
        some (.samples room :: playing gui H) ∧
      library.effect (.freeSamples room) (.samples room :: playing gui H) =
        some (playing gui H) := by
  refine ⟨by cases gui <;> rfl, ?_, ?_⟩
  · cases gui <;> simp [Contract.effect, library, needs, gives, takes, playing]
  · simp [Contract.effect, library, needs, gives, takes]

theorem framesPcm_cons_of_good {f : Frame} (h : f.good = true) (fs : List Frame) :
    framesPcm (f :: fs) = (if f.queued then [4 * f.converted] else []) ++ framesPcm fs := by
  cases hq : f.queued <;> simp [framesPcm, h, hq]

theorem framesPcm_cons_of_bad {f : Frame} (h : f.good = false) (fs : List Frame) :
    framesPcm (f :: fs) = [] := by
  simp [framesPcm, h]

/-- What came out of a frame is heard if the device takes it. -/
theorem leads_queueFrame (gui : Bool) (H : List Handle) (f : Frame) :
    Leads queued (queueFrame gui f) (.samples f.room :: playing gui H) ()
      (.samples f.room :: playing gui H)
      (if gui && f.queued then [4 * f.converted] else []) := by
  have hqueue : gui = true → library.effect (.queueAudio (f.converted * 2 * 2) f.queued)
      (.samples f.room :: playing gui H) = some (.samples f.room :: playing gui H) := by
    rintro rfl
    have hle := f.converted_le
    exact effect_queueAudio (by omega) f.queued _
  have herror : Leads queued (callIf (gui && !f.queued) .sdlGetError)
      (.samples f.room :: playing gui H) () (.samples f.room :: playing gui H) [] := by
    have h := leads_callIf (c := gui && !f.queued) (x := .sdlGetError)
      (H := .samples f.room :: playing gui H) fun _ => rfl
    simpa only [queued, Option.toList, ite_self] using h
  have hbytes : f.converted * 2 * 2 = 4 * f.converted := by ring
  have hheard : (if gui && f.queued then [4 * f.converted] else []) =
      (if gui then (queued (.queueAudio (f.converted * 2 * 2) f.queued)).toList else []) ++ [] := by
    cases gui <;> cases f.queued <;> simp [queued, hbytes]
  rw [hheard]
  exact (leads_callIf hqueue).bind herror

theorem leads_receiveFrames (gui : Bool) (H : List Handle) (fs : List Frame) :
    Leads queued (receiveFrames gui fs) (playing gui H) () (playing gui H)
      (if gui then framesPcm fs else []) := by
  induction fs with
  | nil => cases gui <;> exact Leads.call rfl
  | cons f fs ih =>
    cases hf : f.allocated with
    | false =>
      have hbad : f.good = false := by simp [Frame.good, hf]
      simp only [receiveFrames, hf, framesPcm_cons_of_bad hbad, Bool.false_eq_true, if_false,
        ite_self]
      cases gui <;> exact (Leads.calls rfl).quietly (Leads.pure () _)
    | true =>
      obtain ⟨htake, hconvert, hfree⟩ := effects_samples gui H f.room
      simp only [receiveFrames, hf, if_true]
      refine (Leads.calls htake).quietly ((Leads.call hconvert).quietly ?_)
      split
      next hneg =>
        have hbad : f.good = false := by simp [Frame.good, hneg]
        simp only [framesPcm_cons_of_bad hbad, ite_self]
        exact Leads.call hfree
      next hpos =>
        have hgood : f.good = true := by simp [Frame.good, hf]; omega
        have hall := (leads_queueFrame gui H f).bind (k := fun _ => do
          call library (.freeSamples f.room)
          receiveFrames gui fs) ((Leads.call hfree).quietly ih)
        rw [framesPcm_cons_of_good hgood]
        cases gui <;> exact hall

theorem pcm_cons (p : Packet) (ps : List Packet) :
    pcm (p :: ps) =
      if p.isAudio then (if p.sent then p.pcm ++ pcm ps else []) else pcm ps := by
  cases ha : p.isAudio <;> cases hs : p.sent <;> simp [pcm, Packet.good, ha, hs]

theorem leads_readPackets (gui : Bool) (H : List Handle) (ps : List Packet) :
    Leads queued (readPackets gui ps) (playing gui H) () (playing gui H)
      (if gui then pcm ps else []) := by
  have hread : library.effect .readFrame (playing gui H) = some (playing gui H) := by
    cases gui <;> rfl
  have hsend : library.effect .sendPacket (playing gui H) = some (playing gui H) := by
    cases gui <;> rfl
  have hunref : library.effect .packetUnref (playing gui H) = some (playing gui H) := by
    cases gui <;> rfl
  induction ps with
  | nil => cases gui <;> exact Leads.call rfl
  | cons p ps ih =>
    rw [pcm_cons]
    cases ha : p.isAudio with
    | false =>
      simp only [readPackets, ha]
      exact (Leads.call hread).quietly ((Leads.call hunref).quietly ih)
    | true =>
      cases hs : p.sent with
      | false =>
        simp only [readPackets, ha, hs, if_true, Bool.false_eq_true, if_false, ite_self]
        exact (Leads.call hread).quietly ((Leads.call hsend).quietly (Leads.pure () _))
      | true =>
        simp only [readPackets, ha, hs, if_true]
        refine (Leads.call hread).quietly ((Leads.call hsend).quietly ?_)
        have hframes := (leads_receiveFrames gui H p.frames).bind (k := fun _ => do
          call library .packetUnref
          readPackets gui ps) ((Leads.call hunref).quietly ih)
        cases gui <;> exact hframes

theorem leads_waitQueue (H : List Handle) (n : Nat) :
    Leads queued (waitQueue n) (playing true H) () (playing true H) [] := by
  induction n with
  | zero => exact Leads.call rfl
  | succ n ih => exact (Leads.call rfl).quietly ih

/-! ## The parts of the function -/

/-- What the rest of the function returns and plays, if `ok` says whether it gets through. -/
def Ends (gui : Bool) (file : File) (m : Play Int) (H H' : List Handle) (ok : Bool) : Prop :=
  Leads queued m H (if ok then 0 else -1) H' (if ok && gui then pcm file.packets else [])

theorem ends_playDevice (gui : Bool) (file : File) (H : List Handle) :
    Ends gui file (playDevice gui file) (opened H) H (file.deviceOk gui) := by
  have hfree : Leads queued (freeAll true true) (opened H) () H [] := Leads.calls rfl
  cases gui with
  | false =>
    exact (leads_readPackets false H file.packets).quietly (hfree.quietly (Leads.pure _ _))
  | true =>
    simp only [playDevice, if_true, File.deviceOk, Bool.not_true, Bool.false_or]
    cases hinit : file.sdlInit with
    | false => exact (Leads.call rfl).quietly (hfree.quietly (Leads.pure _ _))
    | true =>
      refine (Leads.call rfl).quietly ?_
      cases hopen : file.openAudioDevice with
      | false =>
        exact (Leads.call rfl).quietly ((Leads.call rfl).quietly (hfree.quietly (Leads.pure _ _)))
      | true =>
        have hpause : Leads queued (call library .pauseAudioDevice) (playing true H) ()
            (playing true H) [] := Leads.call rfl
        refine (Leads.call rfl).quietly (hpause.quietly ?_)
        have hplay := (leads_readPackets true H file.packets).bind (k := fun _ => do
          waitQueue file.queued
          calls library [.closeAudioDevice, .sdlQuit]
          freeAll true true
          return 0) ((leads_waitQueue H file.queued).quietly ((Leads.calls rfl).quietly
            (hfree.quietly (Leads.pure (0 : Int) _))))
        rw [List.append_nil] at hplay
        exact hplay

theorem ends_openResampler (gui : Bool) (file : File) (H : List Handle) :
    Ends gui file (openResampler gui file) (.codec :: .format :: H) H (file.resamplerOk gui) := by
  rw [openResampler, File.resamplerOk]
  cases halloc : file.swrAllocSetOpts with
  | false => exact (Leads.call rfl).quietly ((Leads.calls rfl).quietly (Leads.pure _ _))
  | true =>
    refine (Leads.call rfl).quietly ((Leads.call rfl).quietly ?_)
    cases hinit : file.swrInit with
    | false => exact (Leads.calls rfl).quietly (Leads.pure _ _)
    | true =>
      cases hpacket : file.packetAlloc with
      | false =>
        cases hframe : file.frameAlloc <;>
          exact (Leads.calls rfl).quietly ((Leads.calls rfl).quietly (Leads.pure _ _))
      | true =>
        cases hframe : file.frameAlloc with
        | false => exact (Leads.calls rfl).quietly ((Leads.calls rfl).quietly (Leads.pure _ _))
        | true => exact (Leads.calls rfl).quietly (ends_playDevice gui file H)

theorem ends_openCodec (gui : Bool) (file : File) (H : List Handle) :
    Ends gui file (openCodec gui file) (.format :: H) H (file.codecOk gui) := by
  rw [openCodec, File.codecOk]
  cases halloc : file.allocContext with
  | false => exact (Leads.call rfl).quietly ((Leads.call rfl).quietly (Leads.pure _ _))
  | true =>
    refine (Leads.call rfl).quietly ((Leads.call rfl).quietly ?_)
    cases hparams : file.parametersToContext with
    | false => exact (Leads.calls rfl).quietly (Leads.pure _ _)
    | true =>
      have hlayout : Leads queued (callIf (!file.channelLayout) .getDefaultChannelLayout)
          (.codec :: .format :: H) () (.codec :: .format :: H) [] := by
        have h := leads_callIf (c := !file.channelLayout) (x := .getDefaultChannelLayout)
          (H := .codec :: .format :: H) fun _ => rfl
        cases hl : file.channelLayout <;> rw [hl] at h <;> exact h
      refine hlayout.quietly ((Leads.call rfl).quietly ?_)
      cases hopen : file.open2 with
      | false => exact (Leads.calls rfl).quietly (Leads.pure _ _)
      | true => exact ends_openResampler gui file H

theorem ends_luatFfmpegPlayFile (gui : Bool) (file : File) (H : List Handle) :
    Ends gui file (luatFfmpegPlayFile gui file) H H (file.playable gui) := by
  rw [luatFfmpegPlayFile, File.playable]
  cases hopen : file.openInput with
  | false => exact (Leads.call rfl).quietly (Leads.pure _ _)
  | true =>
    refine (Leads.call rfl).quietly ((Leads.call rfl).quietly ?_)
    cases hinfo : file.findStreamInfo with
    | false => exact (Leads.call rfl).quietly (Leads.pure _ _)
    | true =>
      refine (Leads.call rfl).quietly ?_
      cases hbest : file.findBestStream with
      | false => exact (Leads.call rfl).quietly (Leads.pure _ _)
      | true =>
        refine (Leads.call rfl).quietly ?_
        cases hdecoder : file.findDecoder with
        | false => exact (Leads.call rfl).quietly (Leads.pure _ _)
        | true => exact ends_openCodec gui file H

/-- **Whatever fails, nothing is kept and nothing is used out of turn.**  The function returns;
it has given back all it took, the youngest first; it has used only what it held; and what the
sound device has taken is the sound of the file, in order, or nothing.  The wait at the end is
over because the device plays what it has. -/
theorem play_file_balanced (gui : Bool) (file : File) (s : Session Call Handle) :
    ∃ more, Yields (luatFfmpegPlayFile gui file) s (if file.playable gui then 0 else -1)
        ⟨s.held, s.log ++ more⟩ ∧
      more.filterMap queued = if file.playable gui && gui then pcm file.packets else [] :=
  ends_luatFfmpegPlayFile gui file s.held s.log

end LuatosPc.Driver.Ffmpeg
