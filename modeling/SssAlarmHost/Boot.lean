import Mathlib.Logic.Function.Basic
import SssAlarmHost.MachineRuns

namespace SssAlarmHost.Boot
open MachineRuns

-- The kernel objects that main.c hands around, and what became of each.
inductive Object where
  | initThread
  | voiceThread
  | myMux
  deriving DecidableEq

inductive Life where
  | absent | created | started | ended | deleted
  deriving DecidableEq

inductive MainPc where
  | createInit
  | storeInit (ok : Bool)
  | startInit
  | createVoice
  | storeVoice (ok : Bool)
  | rest
  deriving DecidableEq

inductive InitPc where
  | voiceHandlerInit | startup | exit
  deriving DecidableEq

inductive VoicePc where
  | checkParameter | mutexTake | playVoiceStart | mutexRelease | threadDelete | exit
  deriving DecidableEq

-- A handle is RT_NULL or denotes an object.
structure State where
  life : Object → Life
  initThreadIndex : Option Object
  voiceThreadIndex : Option Object
  myMux : Option Object
  main : MainPc
  init : InitPc
  voice : VoicePc

-- Each step of main carries the outcome of the rt_thread_create it may make.
inductive Step where
  | main (ok : Bool)
  | init
  | voice
  deriving DecidableEq

def State.put (s : State) (object : Object) (life : Life) : State := {s with life := Function.update s.life object life}

def Live (s : State) (handle : Option Object) : Prop :=
  ∃ object, handle = some object ∧ (s.life object = .created ∨ s.life object = .started)

-- Both assert that the handle denotes an object, and rt_thread_startup that the
-- thread was not started before.
def rtThreadStartup (s : State) (handle : Option Object) : Option State :=
  handle.bind fun object => if s.life object = .created then some (s.put object .started) else none

def rtThreadDelete (s : State) (handle : Option Object) : Option State :=
  handle.bind fun object => if s.life object = .created ∨ s.life object = .started then some (s.put object .deleted) else none

-- A mutex that is taken or released by a handle of nothing is not followed.
def rtMutex (s : State) (handle : Option Object) : Option State :=
  handle.bind fun object => if s.life object = .created then some s else none

-- USING_MUX is defined as 0: main does not compile its rt_mutex_create, which
-- stands under #if, and voice_thread_entry compiles its two uses, under #ifdef.
def mainStep (ok : Bool) (s : State) : Option State :=
  match s.main with
  | .createInit => some {if ok then s.put .initThread .created else s with main := .storeInit ok}
  | .storeInit ok => some {s with initThreadIndex := if ok then some .initThread else none,main := .startInit}
  | .startInit =>
    if s.initThreadIndex = none then some {s with main := .createVoice}
    else (rtThreadStartup s s.initThreadIndex).map fun s => {s with main := .createVoice}
  | .createVoice => some {if ok then s.put .voiceThread .created else s with main := .storeVoice ok}
  | .storeVoice ok => some {s with voiceThreadIndex := if ok then some .voiceThread else none,main := .rest}
  | .rest => none

def initThreadEntry (s : State) : Option State :=
  match s.init with
  | .voiceHandlerInit => some {s with init := .startup}
  | .startup => (rtThreadStartup s s.voiceThreadIndex).map fun s => {s with init := .exit}
  | .exit => some (s.put .initThread .ended)

def voiceThreadEntry (parameter : Option UInt8) (s : State) : Option State :=
  match s.voice with
  | .checkParameter => some {s with voice := if parameter = none then .exit else .mutexTake}
  | .mutexTake => (rtMutex s s.myMux).map fun s => {s with voice := .playVoiceStart}
  | .playVoiceStart => some {s with voice := .mutexRelease}
  | .mutexRelease => (rtMutex s s.myMux).map fun s => {s with voice := .threadDelete}
  | .threadDelete => (rtThreadDelete s s.initThreadIndex).map fun s => {s with voice := .exit}
  | .exit => some (s.put .voiceThread .ended)

-- A thread runs from its start to its end. Blocking is not being given a step.
def bootStep (parameter : Option UInt8) (s : State) : Step → Option State
  | .main ok => mainStep ok s
  | .init => if s.life .initThread = .started then initThreadEntry s else none
  | .voice => if s.life .voiceThread = .started then voiceThreadEntry parameter s else none

def passes (s : State) : Step → Option (Option Object)
  | .main _ => if s.main = .startInit ∧ s.initThreadIndex ≠ none then some s.initThreadIndex else none
  | .init => if s.life .initThread = .started ∧ s.init = .startup then some s.voiceThreadIndex else none
  | .voice => if s.life .voiceThread = .started then
      match s.voice with
      | .mutexTake | .mutexRelease => some s.myMux
      | .threadDelete => some s.initThreadIndex
      | _ => none
    else none

def Valid (s : State) (a : Step) : Prop := ∀ handle, passes s a = some handle → Live s handle

-- init_thread starts the voice thread after main has stored its handle and not
-- after its creation failed, and the voice thread has no voice to play.
def InOrder (s : State) : Step → Prop
  | .main _ => True
  | .init => s.life .initThread = .started → s.init = .startup → s.voiceThreadIndex ≠ none
  | .voice => s.life .voiceThread = .started → s.voice ≠ .mutexTake

def reset : State := ⟨fun _ => .absent,none,none,none,.createInit,.voiceHandlerInit,.checkParameter⟩

instance (s : State) : ∀ a, Decidable (InOrder s a) := by
  intro a; unfold InOrder; split <;> infer_instance

variable {parameter : Option UInt8} {s next : State}

-- How far main is decides what the handles can be. The voice thread is not
-- started before init_thread_entry has passed its call.
def MainHolds (s : State) : Prop :=
  match s.main with
  | .createInit | .createVoice => s.voiceThreadIndex = none
  | .storeInit ok => s.voiceThreadIndex = none ∧ (ok = true → s.life .initThread = .created)
  | .startInit => s.voiceThreadIndex = none ∧
      (s.initThreadIndex = none ∨ (s.initThreadIndex = some .initThread ∧ s.life .initThread = .created))
  | .storeVoice ok => s.voiceThreadIndex = none ∧ (ok = true → s.life .voiceThread = .created)
  | .rest => s.voiceThreadIndex = none ∨
      (s.voiceThreadIndex = some .voiceThread ∧ (s.init ≠ .exit → s.life .voiceThread = .created))

structure Sound (s : State) : Prop where
  main : MainHolds s
  mutex : s.myMux = none
  voice : s.voice = .checkParameter ∨ s.voice = .mutexTake ∨ s.voice = .exit

theorem reset_sound : Sound reset := ⟨rfl,rfl,Or.inl rfl⟩

theorem not_live : ¬Live s none := by
  rintro ⟨object,same,_⟩
  cases same

theorem created_live {object : Object} (created : s.life object = .created) : Live s (some object) :=
  ⟨object,rfl,Or.inl created⟩

theorem voice_created (sound : Sound s) (before : s.init ≠ .exit) (stored : s.voiceThreadIndex ≠ none) :
    s.voiceThreadIndex = some .voiceThread ∧ s.life .voiceThread = .created := by
  have main := sound.main
  unfold MainHolds at main
  cases at' : s.main with
  | rest =>
    rw [at'] at main
    rcases main with none' | ⟨index,created⟩
    · exact absurd none' stored
    · exact ⟨index,created before⟩
  | createInit | createVoice => rw [at'] at main; exact absurd main stored
  | storeInit | startInit | storeVoice => rw [at'] at main; exact absurd main.1 stored

theorem in_order_iff (sound : Sound s) (a : Step) : InOrder s a ↔ Valid s a := by
  cases a with
  | main ok =>
    refine iff_of_true trivial ?_
    intro handle passed
    obtain ⟨⟨here,stored⟩,same⟩ := Option.ite_none_right_eq_some.mp passed
    cases same
    have main := sound.main
    unfold MainHolds at main
    rw [here] at main
    obtain ⟨index,created⟩ := main.2.resolve_left stored
    rw [index]
    exact created_live created
  | init =>
    constructor
    · intro order handle passed
      obtain ⟨⟨running,here⟩,same⟩ := Option.ite_none_right_eq_some.mp passed
      cases same
      obtain ⟨index,created⟩ := voice_created sound (by rw [here]; decide) (order running here)
      rw [index]
      exact created_live created
    · intro valid running here absent
      have passed := valid s.voiceThreadIndex (if_pos ⟨running,here⟩)
      rw [absent] at passed
      exact not_live passed
  | voice =>
    constructor
    · intro order handle passed
      obtain ⟨running,same⟩ := Option.ite_none_right_eq_some.mp passed
      rcases sound.voice with here | here | here
      · rw [here] at same
        cases same
      · exact absurd here (order running)
      · rw [here] at same
        cases same
    · intro valid running here
      have passed := valid s.myMux (by simp [passes,running,here])
      rw [sound.mutex] at passed
      exact not_live passed

theorem startup_taken {handle : Option Object} (taken : rtThreadStartup s handle = some next) :
    ∃ object, handle = some object ∧ next = s.put object .started := by
  obtain ⟨object,same,ready⟩ := Option.bind_eq_some_iff.mp taken
  obtain ⟨_,shape⟩ := Option.ite_none_right_eq_some.mp ready
  cases shape
  exact ⟨object,same,rfl⟩

theorem main_keeps (holds : MainHolds s) (main : next.main = s.main)
    (handles : next.voiceThreadIndex = s.voiceThreadIndex ∧ next.initThreadIndex = s.initThreadIndex)
    (life : s.life .initThread = .created → next.life .initThread = .created)
    (life' : s.life .voiceThread = .created → next.life .voiceThread = .created)
    (passed : s.init = .exit → next.init = .exit) : MainHolds next := by
  unfold MainHolds at holds ⊢
  rw [main,handles.1,handles.2]
  cases at' : s.main with
  | createInit | createVoice => rw [at'] at holds; exact holds
  | storeInit ok => rw [at'] at holds; exact ⟨holds.1,fun made => life (holds.2 made)⟩
  | startInit => rw [at'] at holds; exact ⟨holds.1,holds.2.imp_right fun ⟨index,created⟩ => ⟨index,life created⟩⟩
  | storeVoice ok => rw [at'] at holds; exact ⟨holds.1,fun made => life' (holds.2 made)⟩
  | rest =>
    rw [at'] at holds
    exact holds.imp_right fun ⟨index,created⟩ =>
      ⟨index,fun before => life' (created fun there => before (passed there))⟩

theorem main_sound (sound : Sound s) {ok : Bool} (taken : mainStep ok s = some next) : Sound next := by
  have main := sound.main
  have mutex := sound.mutex
  have voice := sound.voice
  obtain ⟨life,initIndex,voiceIndex,myMux,pc,init,voicePc⟩ := s
  unfold MainHolds at main
  cases pc with
  | createInit =>
    cases taken
    cases ok with
    | true => exact ⟨⟨main,fun _ => by simp [State.put]⟩,mutex,voice⟩
    | false => exact ⟨⟨main,fun made => nomatch made⟩,mutex,voice⟩
  | storeInit made =>
    cases taken
    refine ⟨⟨main.1,?_⟩,mutex,voice⟩
    cases made with
    | true => exact Or.inr ⟨rfl,main.2 rfl⟩
    | false => exact Or.inl rfl
  | startInit =>
    by_cases absent : initIndex = none
    · rw [mainStep,if_pos absent] at taken
      cases taken
      exact ⟨main.1,mutex,voice⟩
    · rw [mainStep,if_neg absent] at taken
      obtain ⟨started,ran,shape⟩ := Option.map_eq_some_iff.mp taken
      obtain ⟨object,_,same⟩ := startup_taken ran
      cases same
      cases shape
      exact ⟨main.1,mutex,voice⟩
  | createVoice =>
    cases taken
    cases ok with
    | true => exact ⟨⟨main,fun _ => by simp [State.put]⟩,mutex,voice⟩
    | false => exact ⟨⟨main,fun made => nomatch made⟩,mutex,voice⟩
  | storeVoice made =>
    cases taken
    refine ⟨?_,mutex,voice⟩
    cases made with
    | true => exact Or.inr ⟨rfl,fun _ => main.2 rfl⟩
    | false => exact Or.inl rfl
  | rest => cases taken

theorem init_sound (sound : Sound s) (running : s.life .initThread = .started) (taken : initThreadEntry s = some next) :
    Sound next := by
  unfold initThreadEntry at taken
  cases here : s.init with
  | voiceHandlerInit =>
    rw [here] at taken
    cases taken
    have later : s.init = .exit → InitPc.startup = .exit := by rw [here]; exact fun there => nomatch there
    exact ⟨main_keeps sound.main rfl ⟨rfl,rfl⟩ (fun c => c) (fun c => c) later,sound.mutex,sound.voice⟩
  | startup =>
    rw [here] at taken
    obtain ⟨started,ran,shape⟩ := Option.map_eq_some_iff.mp taken
    obtain ⟨object,handle,same⟩ := startup_taken ran
    cases same
    cases shape
    have stored : s.voiceThreadIndex ≠ none := by rw [handle]; exact Option.some_ne_none object
    have index := (voice_created sound (by rw [here]; decide) stored).1
    have main := sound.main
    refine ⟨?_,sound.mutex,sound.voice⟩
    unfold MainHolds at main ⊢
    cases at' : s.main with
    | rest => simpa [State.put,at'] using Or.inr index
    | createInit | createVoice => rw [at'] at main; exact absurd main stored
    | storeInit | startInit | storeVoice => rw [at'] at main; exact absurd main.1 stored
  | exit =>
    rw [here] at taken
    cases taken
    have fresh : s.life .initThread = .created → (s.put .initThread .ended).life .initThread = .created := by
      rw [running]
      exact fun created => nomatch created
    exact ⟨main_keeps sound.main rfl ⟨rfl,rfl⟩ fresh (fun c => by simpa [State.put] using c) (fun c => c),
      sound.mutex,sound.voice⟩

theorem voice_sound (sound : Sound s) (running : s.life .voiceThread = .started)
    (taken : voiceThreadEntry parameter s = some next) : Sound next := by
  unfold voiceThreadEntry at taken
  rcases sound.voice with here | here | here
  · rw [here] at taken
    cases taken
    refine ⟨main_keeps sound.main rfl ⟨rfl,rfl⟩ (fun c => c) (fun c => c) (fun c => c),sound.mutex,?_⟩
    cases parameter with
    | none => exact Or.inr (Or.inr rfl)
    | some voiceIndex => exact Or.inr (Or.inl rfl)
  · rw [here] at taken
    simp [sound.mutex,rtMutex] at taken
  · rw [here] at taken
    cases taken
    have fresh : s.life .voiceThread = .created → (s.put .voiceThread .ended).life .voiceThread = .created := by
      rw [running]
      exact fun created => nomatch created
    exact ⟨main_keeps sound.main rfl ⟨rfl,rfl⟩ (fun c => by simpa [State.put] using c) fresh (fun c => c),
      sound.mutex,sound.voice⟩

theorem step_sound {a : Step} (sound : Sound s) (taken : bootStep parameter s a = some next) : Sound next := by
  cases a with
  | main ok => exact main_sound sound taken
  | init =>
    obtain ⟨running,ran⟩ := Option.ite_none_right_eq_some.mp taken
    exact init_sound sound running ran
  | voice =>
    obtain ⟨running,ran⟩ := Option.ite_none_right_eq_some.mp taken
    exact voice_sound sound running ran

-- Every handle is good when it is passed, for every interleaving and every outcome
-- of the creations, exactly as long as the two threads are in order.
theorem handles_valid_iff (parameter : Option UInt8) (steps : List Step) :
    Along (bootStep parameter) InOrder reset steps ↔ Along (bootStep parameter) Valid reset steps :=
  along_iff (fun _ a sound => in_order_iff sound a) (fun _ _ _ sound _ taken => step_sound sound taken) reset_sound steps

-- main fails to create the voice thread, says so, and init_thread starts it.
def voiceFails : List Step := [.main true,.main true,.main true,.main false,.main false,.init]

theorem null_voice_thread_started : ¬ ∀ (parameter : Option UInt8) (steps : List Step),
    Along (bootStep parameter) Valid reset steps := by
  intro all
  have bad := along_at voiceFails (all none (voiceFails ++ [.init])) rfl
  exact not_live (bad none rfl)

end SssAlarmHost.Boot
