import Fireworks.Arithmetic

/-! # Audio cues

The simulation only announces cues. A listener either keeps them in order or hears nothing.
-/
namespace Fireworks

inductive Cue where
  /-- The deep burst of an opening shell. -/
  | bloom
  /-- The crackle of a glittering tail. -/
  | crackle
  deriving DecidableEq, Repr

namespace Cue

def all : List Cue := [.bloom, .crackle]

/-- The registered name of the behavior that gives the cue. -/
def name : Cue → String
  | .bloom => "bloomVoice"
  | .crackle => "crackleVoice"

/-- Every cue asks for three tenths of the full volume, rounded to single precision. -/
def volume {ν : Type} [Arithmetic ν] : Cue → ν
  | .bloom | .crackle => 0.300000011920928955078125

end Cue

structure CueLog where
  cues : Array Cue := #[]
  deriving Repr

namespace CueLog

def play (log : CueLog) (cue : Cue) : CueLog := ⟨log.cues.push cue⟩

def count (log : CueLog) (cue : Cue) : Nat := log.cues.toList.count cue

def drain (log : CueLog) : Array Cue × CueLog := (log.cues, {})

end CueLog

inductive Audio where
  | silent
  | recording (log : CueLog)

namespace Audio

def hear (audio : Audio) (cues : Array Cue) : Audio :=
  match audio with
  | .silent => .silent
  | .recording log => .recording (cues.foldl CueLog.play log)

def log : Audio → CueLog
  | .silent => {}
  | .recording log => log

def drain : Audio → Array Cue × Audio
  | .silent => (#[], .silent)
  | .recording log => (log.drain.1, .recording log.drain.2)

end Audio

end Fireworks
